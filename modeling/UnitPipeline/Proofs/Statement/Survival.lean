import UnitPipeline.Proofs.Run.Way
import UnitPipeline.Proofs.Statement.Conduct
import UnitPipeline.Proofs.Statement.Generating

namespace UnitPipeline
variable {decls : DeclTable} {source : SourceFile} {s : Session} {order : List DeclId}

namespace SourceFile

def checked (source : SourceFile) (decls : DeclTable) (s : Session) (order : List DeclId) :
    CompilationUnit :=
  (source.typed decls s order).withChecks ⟨tagged .postUnit source.featureChecks⟩

def built (source : SourceFile) (decls : DeclTable) (s : Session) (order : List DeclId) :
    CompilationUnit :=
  (Statement.generating decls (source.checked decls s order) (source.inBody decls order)).queuing
    [(.postUnit, .computed source.root)]

def lastChecks (source : SourceFile) : List DeferredCheck :=
  source.featureChecks ++ source.validations ++ [.computed source.root]

theorem typed_checks (fits : source.Fits) (declares : decls.Declares source) :
    (source.typed decls s order).checks.entries =
      (.postTyper, .syntheticsDrained) :: tagged .postUnit source.featureChecks := by
  have queued := inBody_features (s := s) fits declares order
  simp only [typed, Statement.checking, CompilationUnit.queuing, queued]
  rfl

theorem built_checks : (source.built decls s order).checks.entries =
    tagged .postUnit source.lastChecks := by
  have queued := source.inBody_validations decls order
  simp only [built, Statement.generating, CompilationUnit.queuing, queued, lastChecks, tagged,
    List.map_append, List.append_assoc]
  rfl

end SourceFile

open StandardChecks

theorem refusal?_plain {answers : Answers} {check : DeferredCheck} (plain : answers check = none)
    (u : CompilationUnit) : refusal? answers u check = failure? u check := by
  simp only [refusal?, plain]

theorem answersOf_plain (hosted : Bool) (check : DeferredCheck)
    (other : ∀ code node claim, check ≠ .validate code node claim) :
    Statement.answersOf hosted check = none := by
  cases hosted with
  | false => rfl
  | true =>
    cases check with
    | validate code node claim => exact absurd rfl (other code node claim)
    | _ => rfl

-- Why a source does not come through, with the phase that it is dropped in: a line that
-- cannot be read, definitions that were staged and never moved, an assertion that the
-- host does not accept.
def downfall? (leak hosted : Bool) (source : SourceFile) : Option (Phase × DriverError) :=
  match source.unreadable? with
  | some text => some (.parser, .phase .parser source.display
      ⟨"cannot parse `" ++ String.ofList text ++ "`"⟩)
  | none =>
    if leak ∧ 0 < source.cases.length then
      some (.typer, .unit (.checkFailed source.display (.syntheticsNotDrained source.cases.length)))
    else
      (source.claims.find? fun claim => hosted && claim ≠ "true").map fun claim => (.terminal,
        .unit (.checkFailed source.display (.failed "assert" ("`" ++ claim ++ "` does not hold"))))

def SourceFile.row (source : SourceFile) (decls : DeclTable) (leak : Bool)
    (order : List DeclId → List DeclId) : List DeclId :=
  if leak then [] else order ((source.made decls).map (·.1))

def SourceFile.finished (source : SourceFile) (decls : DeclTable) (s : Session)
    (order : List DeclId) (hosted : Bool) (enabled : OrderedSet Feature) : CompilationUnit :=
  (after enabled (source.built decls s order)
    (unanswered (Statement.answersOf hosted) source.lastChecks)).withChecks {}

namespace SourceFile

theorem made_length (declares : decls.Declares source) :
    (source.made decls).length = source.cases.length := declares.generated_length

theorem typed_left (declares : decls.Declares source) (leak : Bool)
    {order : List DeclId → List DeclId} (orders : ∀ keys, (order keys).Perm keys) :
    (source.typed decls s (source.row decls leak order)).synthetics.length =
      if leak then source.cases.length else 0 := by
  cases leak with
  | true =>
    have left : (source.typed decls s []).synthetics = ⟨source.stagings (source.made decls)⟩ :=
      KeyedTable.without_nil _
    have count : (source.stagings (source.made decls)).length = source.cases.length := by
      rw [stagings, List.length_map, List.length_zipIdx, made_length declares]
    exact (congrArg KeyedTable.length left).trans count
  | false =>
    have all : ∀ decl ∈ (KeyedTable.mk (source.stagings (source.made decls))).keys,
        decl ∈ order ((source.made decls).map (·.1)) := by
      intro decl inside
      refine (orders _).mem_iff.mpr ?_
      rw [← stagings_keys source]
      exact inside
    exact congrArg KeyedTable.length (KeyedTable.without_all _ all)

end SourceFile

theorem drained_failure (u : CompilationUnit) :
    failure? u .syntheticsDrained = if 0 < u.synthetics.length then
      some (.syntheticsNotDrained u.synthetics.length) else none := by
  cases entries : u.synthetics.entries <;>
    simp [failure?, KeyedTable.isEmpty, KeyedTable.length, entries]

theorem KeyedTable.itself_contains {κ : Type} [DecidableEq κ] {members : OrderedSet κ} {x : κ} :
    (itself members).contains x = true ↔ x ∈ members.toList := by
  simp [KeyedTable.contains, KeyedTable.get?, itself]

namespace SourceFile

theorem root_computed (source : SourceFile) (decls : DeclTable) (s : Session)
    (order : List DeclId) : failure? (source.built decls s order) (.computed source.root) = none := by
  have here : (source.built decls s order).cache.contains source.root = true :=
    KeyedTable.itself_contains.mpr (OrderedSet.mem_insert.mpr (Or.inr rfl))
  rw [failure?, if_pos here]

theorem assertion_refusal (hosted : Bool) (at_ : Option NodeId) (claim : String)
    (u : CompilationUnit) :
    refusal? (Statement.answersOf hosted) u (.validate Statement.assertCode at_ claim) =
      (Option.guard (fun claim => hosted && claim ≠ "true") claim).map fun claim =>
        .failed "assert" ("`" ++ claim ++ "` does not hold") := by
  cases hosted with
  | false => rfl
  | true =>
    by_cases holds : claim = "true"
    · simp [refusal?, Statement.answersOf, Statement.hostAnswers, holds, Option.guard]
    · simp [refusal?, Statement.answersOf, Statement.hostAnswers, Statement.assertCode, holds]

theorem validation_refusal (hosted : Bool) (u : CompilationUnit) :
    source.validations.findSome? (refusal? (Statement.answersOf hosted) u) =
      (source.claims.find? fun claim => hosted && claim ≠ "true").map fun claim =>
        .failed "assert" ("`" ++ claim ++ "` does not hold") := by
  rw [List.find?_eq_findSome?_guard, List.map_findSome?, ← List.head?_filterMap,
    ← List.head?_filterMap, validations, claims, List.filterMap_filterMap, List.filterMap_filterMap]
  refine congrArg List.head? (entries_filterMap fun at_ p _ _ => ?_)
  cases statement : p.statement with
  | assert claim =>
    simp only [Statement.validation?, Placed.node, statement, Statement.kind, Option.bind_some,
      Statement.claim?, assertion_refusal, Function.comp_apply]
  | _ => simp [Statement.validation?, Placed.node, statement, Statement.kind, Statement.claim?]

theorem last_refusal (hosted : Bool) : source.lastChecks.findSome?
      (refusal? (Statement.answersOf hosted) (source.built decls s order)) =
    (source.claims.find? fun claim => hosted && claim ≠ "true").map fun claim =>
      .failed "assert" ("`" ++ claim ++ "` does not hold") := by
  have features : source.featureChecks.findSome?
      (refusal? (Statement.answersOf hosted) (source.built decls s order)) = none := by
    refine List.findSome?_eq_none_iff.mpr fun check inside => ?_
    obtain ⟨p, _, due⟩ := List.mem_filterMap.mp inside
    obtain ⟨used, _, rfl⟩ := Option.map_eq_some_iff.mp due
    rw [refusal?_plain (answersOf_plain hosted _ (by simp))]
    rfl
  have computed : refusal? (Statement.answersOf hosted) (source.built decls s order)
      (.computed source.root) = none := by
    rw [refusal?_plain (answersOf_plain hosted _ (by simp)), root_computed]
  rw [lastChecks, List.findSome?_append, List.findSome?_append, features, Option.none_or,
    validation_refusal, List.findSome?_singleton, computed, Option.or_none]

end SourceFile

theorem after_drained (enabled : OrderedSet Feature) (u : CompilationUnit) :
    after enabled u [.syntheticsDrained] = u := by
  have same : after enabled u ([] ++ [.syntheticsDrained]) = after enabled u [] :=
    after_silent (by simp [missing, feature?]) rfl
  rwa [List.nil_append, after_nil] at same

section
variable {leak hosted : Bool} {limit : Nat} {enabled : OrderedSet Feature}
  {reorder : List DeclId → List DeclId}

-- The checks that follow the typer fail on what a leak leaves behind.
theorem typer_checks (enough : 2 ≤ limit) (fits : source.Fits) (declares : decls.Declares source)
    (orders : ∀ keys, (reorder keys).Perm keys) (now : Session) :
    ∃ out, drain (Statement.runnerOf hosted) limit .postTyper enabled
        ⟨now, source.typed decls s (source.row decls leak reorder)⟩ = some out ∧
      out.desk.unit.source = source ∧
      if leak ∧ 0 < source.cases.length then
        out.value.1 =
          .error (.checkFailed source.display (.syntheticsNotDrained source.cases.length))
      else (∃ ran, out.value.1 = .ok ran) ∧
        out.desk.unit = source.checked decls s (source.row decls leak reorder) := by
  have checks : (source.typed decls s (source.row decls leak reorder)).checks.entries = _ :=
    source.typed_checks fits declares
  have waits : (source.typed decls s (source.row decls leak reorder)).checks.waiting .postTyper =
      [.syntheticsDrained] := by
    simp [CheckQueue.waiting, checks, tagged]
  have others : (source.typed decls s (source.row decls leak reorder)).checks.without .postTyper =
      ⟨tagged .postUnit source.featureChecks⟩ := by
    simp [CheckQueue.without, checks, tagged]
  have plain := answersOf_plain hosted .syntheticsDrained (by simp)
  have left := source.typed_left (s := s) declares leak orders
  have verdict : [DeferredCheck.syntheticsDrained].findSome? (refusal? (Statement.answersOf hosted)
      (source.typed decls s (source.row decls leak reorder))) =
        if leak ∧ 0 < source.cases.length then some (.syntheticsNotDrained source.cases.length)
        else none := by
    rw [List.findSome?_singleton, refusal?_plain plain, drained_failure, left]
    cases leak <;> simp
  obtain ⟨out, ran, settles⟩ := drain_answered enough (Statement.answersOf hosted) enabled .postTyper
    ⟨now, source.typed decls s (source.row decls leak reorder)⟩
  rw [← Statement.runnerOf_answers] at ran
  rw [waits, others] at settles
  refine ⟨out, ran, settles.source, ?_⟩
  have value := settles.value
  have unit := settles.unit
  rw [verdict] at value unit
  split
  · rename_i leaks
    rw [value, if_pos leaks]
    rfl
  · rename_i clean
    have asked : unanswered (Statement.answersOf hosted) [.syntheticsDrained] = [.syntheticsDrained] := by
      simp [unanswered, plain]
    rw [if_neg clean] at value unit
    refine ⟨⟨1, by rw [value]; rfl⟩, ?_⟩
    rw [unit rfl, List.nil_append, asked, after_drained]
    rfl

theorem last_checks (enough : 2 ≤ limit) (now : Session) :
    ∃ out, drain (Statement.runnerOf hosted) limit .postUnit enabled
        ⟨now, source.built decls s order⟩ = some out ∧
      out.desk.unit.source = source ∧
      match source.claims.find? fun claim => hosted && claim ≠ "true" with
      | some claim => out.value.1 = .error (.checkFailed source.display
          (.failed "assert" ("`" ++ claim ++ "` does not hold")))
      | none => (∃ ran, out.value.1 = .ok ran) ∧
        out.desk.unit = source.finished decls s order hosted enabled := by
  have checks : (source.built decls s order).checks.entries = _ := source.built_checks
  have waits : (source.built decls s order).checks.waiting .postUnit = source.lastChecks := by
    simp [CheckQueue.waiting, checks, tagged, List.filter_map, Function.comp_def]
  have others : (source.built decls s order).checks.without .postUnit = {} := by
    simp [CheckQueue.without, checks, tagged, List.filter_map, Function.comp_def]
  have verdict : source.lastChecks.findSome?
      (refusal? (Statement.answersOf hosted) (source.built decls s order)) = _ :=
    source.last_refusal hosted
  obtain ⟨out, ran, settles⟩ := drain_answered enough (Statement.answersOf hosted) enabled .postUnit
    ⟨now, source.built decls s order⟩
  rw [← Statement.runnerOf_answers] at ran
  rw [waits, others] at settles
  refine ⟨out, ran, settles.source, ?_⟩
  have value := settles.value
  have unit := settles.unit
  rw [verdict] at value unit
  cases refused : source.claims.find? fun claim => hosted && claim ≠ "true" with
  | some claim =>
    rw [refused] at value
    exact congrArg Prod.fst value
  | none =>
    rw [refused] at value unit
    exact ⟨⟨_, congrArg Prod.fst value⟩, unit rfl⟩

theorem stateless_takes {σ : Type} {d : Driver σ} {shared : Shared σ}
    {work : Action σ (Except PhaseError Unit)} (phase : Phase)
    (ends : work.Ends (drain d.runner limit) (shared.session.enterPhase phase) u result v) :
    (Statement.stateless phase work).Takes d limit shared u result shared.state v :=
  ends.bind (.done _)

theorem checked_topLevel (fits : source.Fits) (declares : decls.Declares source) :
    Statement.topLevel (source.checked decls s order) = source.inBody decls order := by
  rw [← source.rehomed_topLevel (s := s) fits declares order]
  exact topLevel_same rfl rfl

theorem checked_way (enough : 2 ≤ limit) (fits : source.Fits) (declares : decls.Declares source)
    (session : Session) :
    let d := Statement.pipeline (Statement.runnerOf hosted) decls leak reorder
    d.way limit ⟨session, enabled⟩ [Statement.stateless .backend (Statement.generate decls)]
        (source.checked decls s order) =
      some ((source.claims.find? fun claim => hosted && claim ≠ "true").elim
        (.survived (source.finished decls s order hosted enabled))
        fun claim => .dropped source.display .terminal (.unit (.checkFailed source.display
          (.failed "assert" ("`" ++ claim ++ "` does not hold"))))) := by
  intro d
  have backend : (Statement.stateless .backend (Statement.generate decls)).Takes d limit
      ⟨session, enabled⟩ (source.checked decls s order) (.ok ()) enabled
      (source.built decls s order) := by
    refine stateless_takes .backend ?_
    rw [SourceFile.built, ← checked_topLevel fits declares]
    exact Statement.generate_ends rfl
  have clean : (source.built decls s order).checks.waiting .postTyper = [] := by
    simp [CheckQueue.waiting, source.built_checks, tagged]
  obtain ⟨ending, drained, same, settled⟩ : ∃ out, drain d.runner limit .postUnit enabled
    ⟨session.enterPhase .terminal, source.built decls s order⟩ = some out ∧ _ :=
      last_checks enough (session.enterPhase .terminal)
  rw [way_next backend (by decide : Phase.backend ≠ .typer) rfl,
    way_last (Nat.le_of_succ_le enough) clean drained]
  cases refused : source.claims.find? fun claim => hosted && claim ≠ "true" with
  | some claim =>
    rw [refused] at settled
    simp only at settled
    simp only [settled, CompilationUnit.display, same, Option.elim_some]
  | none =>
    rw [refused] at settled
    obtain ⟨⟨more, passed⟩, finished⟩ := settled
    simp only [passed, finished, Option.elim_none]

def pipelineFate (source : SourceFile) (decls : DeclTable) (leak hosted : Bool)
    (reorder : List DeclId → List DeclId) (shared : Shared (OrderedSet Feature)) : Fate :=
  match downfall? leak hosted source with
  | some (phase, error) => .dropped source.display phase error
  | none => .survived (source.finished decls (shared.session.enterPhase .namer)
      (source.row decls leak reorder) hosted shared.state)

theorem pipeline_way (enough : 2 ≤ limit) (fits : source.Fits)
    (declares : source.unreadable? = none → decls.Declares source)
    (orders : ∀ keys, (reorder keys).Perm keys) (session : Session) :
    let d := Statement.pipeline (Statement.runnerOf hosted) decls leak reorder
    d.way limit ⟨session, enabled⟩ d.ordered (.new source) =
      some (pipelineFate source decls leak hosted reorder ⟨session, enabled⟩) := by
  intro d
  let names := session.enterPhase .namer
  let row := source.row decls leak reorder
  have phases : d.ordered = Statement.phases decls leak reorder := rfl
  rw [phases, Statement.phases]
  cases readable : source.unreadable? with
  | some text =>
    obtain ⟨u, stops, same⟩ := Statement.parse_stops readable
    rw [way_stopped (stateless_takes .parser stops)]
    simp only [pipelineFate, downfall?, readable, CompilationUnit.display, same]
    rfl
  | none =>
    have declared := declares readable
    have parser : (Statement.stateless .parser Statement.parse).Takes d limit ⟨session, enabled⟩
        (.new source) (.ok ()) enabled source.parsed :=
      stateless_takes .parser (Statement.parse_reads readable)
    have namer : (Statement.stateless .namer (Statement.name decls)).Takes d limit
        ⟨session, enabled⟩ source.parsed (.ok ()) enabled (source.named decls names) :=
      stateless_takes .namer (Statement.name_ends fits.nodes)
    have typer : (Statement.stateless .typer (Statement.type leak reorder)).Takes d limit
        ⟨session, enabled⟩ (source.named decls names) (.ok ()) enabled
        (source.typed decls names row) :=
      stateless_takes .typer (Statement.type_ends fits declared orders leak)
    obtain ⟨typing, checked, kept, decided⟩ : ∃ out, drain d.runner limit .postTyper enabled
      ⟨session.enterPhase .typer, source.typed decls names row⟩ = some out ∧ _ :=
        typer_checks enough fits declared orders (session.enterPhase .typer)
    rw [way_next parser (by decide : Phase.parser ≠ .typer) rfl,
      way_next namer (by decide : Phase.namer ≠ .typer) rfl, way_typer rfl typer checked]
    by_cases leaks : leak ∧ 0 < source.cases.length
    · rw [if_pos leaks] at decided
      simp only [decided, pipelineFate, downfall?, readable, if_pos leaks,
        CompilationUnit.display, kept]
    · rw [if_neg leaks] at decided
      obtain ⟨⟨ran, passed⟩, unit⟩ := decided
      rw [unit, passed]
      refine (checked_way enough fits declared session).trans ?_
      simp only [pipelineFate, downfall?, readable, if_neg leaks]
      cases source.claims.find? fun claim => hosted && claim ≠ "true" <;> rfl

-- What the results on the language are about: the table that its sources declare, and
-- sources that have room.
structure Loaded (sources : List SourceFile) (decls : DeclTable) : Prop where
  told : DeclTable.ofSources {} sources = .ok decls
  room : ∀ source ∈ sources, source.Fits

theorem Loaded.declares (loaded : Loaded sources decls) (inside : source ∈ sources)
    (readable : source.unreadable? = none) : decls.Declares source :=
  DeclTable.ofSources_declares loaded.told inside readable (loaded.room source inside)

theorem pipeline_fates (loaded : Loaded sources decls) (enough : 2 ≤ limit)
    (orders : ∀ keys, (reorder keys).Perm keys) (leak hosted : Bool)
    (shared : Shared (OrderedSet Feature)) :
    let d := Statement.pipeline (Statement.runnerOf hosted) decls leak reorder
    (∃ r, d.run limit shared sources = some r) ∧
      ∀ r, d.run limit shared sources = some r → ∀ slot source, sources[slot]? = some source →
        r.report.fate? slot = some (pipelineFate source decls leak hosted reorder shared) := by
  intro d
  have aloof := Statement.pipeline_aloof hosted leak decls reorder shared.state
  have itself : shared.Akin (· = shared.state) shared := ⟨rfl, rfl, rfl⟩
  have way : ∀ source ∈ sources, d.way limit shared d.ordered (.new source) =
      some (pipelineFate source decls leak hosted reorder shared) := fun source inside =>
    pipeline_way enough (loaded.room source inside) (loaded.declares inside) orders shared.session
  refine ⟨run_ends aloof itself fun source inside => ⟨_, way source inside⟩, ?_⟩
  intro r ran slot source here
  obtain ⟨fate, goes, sealed⟩ := run_fate aloof itself ran here
  rw [sealed, ← goes, way source (List.mem_of_getElem? here)]

theorem downfall?_none (clean : downfall? leak hosted source = none) :
    source.unreadable? = none := by
  cases readable : source.unreadable? with
  | none => rfl
  | some text => simp [downfall?, readable] at clean

theorem pipeline_survivor (loaded : Loaded sources decls) (enough : 2 ≤ limit)
    (orders : ∀ keys, (reorder keys).Perm keys) (leak hosted : Bool)
    (shared : Shared (OrderedSet Feature))
    (ran : (Statement.pipeline (Statement.runnerOf hosted) decls leak reorder).run limit shared
      sources = some r) (inside : seat ∈ r.report.survivors) :
    ∃ source, sources[seat.slot]? = some source ∧ downfall? leak hosted source = none ∧
      source.Fits ∧ decls.Declares source ∧
      seat.unit = source.finished decls (shared.session.enterPhase .namer)
        (source.row decls leak reorder) hosted shared.state := by
  obtain ⟨_, fates⟩ := pipeline_fates loaded enough orders leak hosted shared
  have sealed := (RunReport.survived_iff (fates_unique ran)).mp inside
  obtain ⟨source, here⟩ := fate_source ran sealed
  have same := Option.some.inj ((fates r ran _ _ here).symm.trans sealed)
  refine ⟨source, here, ?_⟩
  unfold pipelineFate at same
  split at same
  · cases same
  · rename_i clean
    have among := List.mem_of_getElem? here
    exact ⟨clean, loaded.room source among, loaded.declares among (downfall?_none clean),
      (Fate.survived.inj same).symm⟩

end

structure Sorted (leak hosted : Bool) (sources : List SourceFile) (report : RunReport) : Prop where
  failed : ∀ f, f ∈ report.failures ↔ ∃ source, sources[f.slot]? = some source ∧
    f.unit = source.display ∧ downfall? leak hosted source = some (f.phase, f.error)
  survived : ∀ slot, (∃ unit, ⟨slot, unit⟩ ∈ report.survivors) ↔
    ∃ source, sources[slot]? = some source ∧ downfall? leak hosted source = none
  own : ∀ seat ∈ report.survivors, sources[seat.slot]? = some seat.unit.source
  complete : ∀ f ∈ report.failures, (∀ unit, f.error ≠ .missingBody unit) ∧
    ∀ unit node, f.error ≠ .unit (.checkFailed unit (.missingComputation node))

theorem downfall?_cases (fails : downfall? leak hosted source = some (phase, error)) :
    (∀ unit, error ≠ .missingBody unit) ∧
      ∀ unit node, error ≠ .unit (.checkFailed unit (.missingComputation node)) := by
  unfold downfall? at fails
  split at fails
  · cases fails
    exact ⟨by simp, by simp⟩
  · split at fails
    · cases fails
      exact ⟨by simp, by simp⟩
    · obtain ⟨claim, _, same⟩ := Option.map_eq_some_iff.mp fails
      cases same
      exact ⟨by simp, by simp⟩

theorem pipeline_survival (loaded : Loaded sources decls) (enough : 2 ≤ limit)
    {reorder : List DeclId → List DeclId} (orders : ∀ keys, (reorder keys).Perm keys)
    (leak hosted : Bool) (session : Session) (enabled : OrderedSet Feature) :
    let d := Statement.pipeline (Statement.runnerOf hosted) decls leak reorder
    (∃ r, d.run limit ⟨session, enabled⟩ sources = some r) ∧
      ∀ r, d.run limit ⟨session, enabled⟩ sources = some r →
        Sorted leak hosted sources r.report := by
  intro d
  obtain ⟨ends, fates⟩ := pipeline_fates loaded enough orders leak hosted ⟨session, enabled⟩
  refine ⟨ends, fun r ran => ?_⟩
  have unique := fates_unique ran
  have settled := fates r ran
  have failed : ∀ f, f ∈ r.report.failures ↔ ∃ source, sources[f.slot]? = some source ∧
      f.unit = source.display ∧ downfall? leak hosted source = some (f.phase, f.error) := by
    intro f
    rw [RunReport.failed_iff unique]
    constructor
    · intro sealed
      obtain ⟨source, here⟩ := fate_source ran sealed
      have same := Option.some.inj ((settled _ _ here).symm.trans sealed)
      refine ⟨source, here, ?_⟩
      unfold pipelineFate at same
      split at same
      · rename_i phase error fails
        obtain ⟨named, rfl, rfl⟩ := Fate.dropped.inj same
        exact ⟨named.symm, fails⟩
      · cases same
    · rintro ⟨source, here, named, fails⟩
      rw [settled _ _ here, pipelineFate, fails, named]
  refine ⟨failed, fun slot => ⟨?_, ?_⟩, ?_, ?_⟩
  · rintro ⟨unit, inside⟩
    obtain ⟨source, here, clean, _⟩ :=
      pipeline_survivor loaded enough orders leak hosted ⟨session, enabled⟩ ran inside
    exact ⟨source, here, clean⟩
  · rintro ⟨source, here, clean⟩
    have sealed := settled _ _ here
    rw [pipelineFate, clean] at sealed
    exact ⟨_, (RunReport.survived_iff unique).mpr sealed⟩
  · intro seat inside
    obtain ⟨source, here, _, _, _, same⟩ :=
      pipeline_survivor loaded enough orders leak hosted ⟨session, enabled⟩ ran inside
    rw [same, here]
    rfl
  · intro f inside
    obtain ⟨_, _, _, fails⟩ := (failed f).mp inside
    exact downfall?_cases fails

def fourEnds : List SourceFile :=
  [.persistent "A" "def a\nmacro b\ncase c", .persistent "B" "case d\nassert no\n",
    .inMemory "C" "assert true\nassert yes", .persistent "D" "use a\r\n\n<xml/>\nfeature e  \n"]

def tableOf (sources : List SourceFile) : DeclTable :=
  match DeclTable.ofSources {} sources with
  | .ok decls => decls
  | .error _ => {}

theorem fourEnds_loaded : Loaded fourEnds (tableOf fourEnds) := ⟨rfl, by decide⟩

theorem fourEnds_sorted : ∃ r, (Statement.pipeline (Statement.runnerOf true) (tableOf fourEnds) true
      List.reverse).run 2 ⟨{}, {}⟩ fourEnds = some r ∧ Sorted true true fourEnds r.report ∧
    r.report.failures.map (fun f => (f.slot, f.phase, f.error.message)) =
      [(0, .parser, "A: parser failed: cannot parse `macro b`"),
        (1, .typer, "deferred check failed in B: 1 synthetic definition(s) were never consumed"),
        (2, .terminal, "deferred check failed in C: check assert failed: `yes` does not hold")] ∧
    r.report.survivors.map (·.slot) = [3] := by
  obtain ⟨⟨r, ran⟩, sorted⟩ := pipeline_survival fourEnds_loaded (Nat.le_refl 2)
    List.reverse_perm true true {} {}
  have told : ((Statement.pipeline (Statement.runnerOf true) (tableOf fourEnds) true
      List.reverse).run 2 ⟨{}, {}⟩ fourEnds).map (fun r =>
        (r.report.failures.map (fun f => (f.slot, f.phase, f.error.message)),
          r.report.survivors.map (·.slot))) = some
      ([(0, .parser, "A: parser failed: cannot parse `macro b`"),
        (1, .typer, "deferred check failed in B: 1 synthetic definition(s) were never consumed"),
        (2, .terminal, "deferred check failed in C: check assert failed: `yes` does not hold")],
        [3]) := by
    decide +kernel
  rw [ran] at told
  obtain ⟨failures, survivors⟩ := Prod.mk.inj (Option.some.inj told)
  exact ⟨r, ran, sorted r ran, failures, survivors⟩

end UnitPipeline
