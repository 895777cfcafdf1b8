import UnitPipeline.Proofs.Statement.Survival

namespace UnitPipeline
variable {decls : DeclTable} {source : SourceFile} {s : Session} {order : List DeclId}
  {enabled : OrderedSet Feature}

theorem placed_line {pieces : List (List Char)} (inside : p ∈ placedFrom line offset pieces) :
    ∃ i piece, pieces[i]? = some piece ∧ p.line = line + i ∧
      Statement.ofText? (Text.trimEnd piece) = some p.statement := by
  induction pieces generalizing line offset with
  | nil => cases inside
  | cons piece rest ih =>
    have onwards : p ∈ placedFrom (line + 1) (offset + Text.size piece) rest →
        ∃ i text, (piece :: rest)[i]? = some text ∧ p.line = line + i ∧
          Statement.ofText? (Text.trimEnd text) = some p.statement := by
      intro later
      obtain ⟨i, text, here, number, read⟩ := ih later
      exact ⟨i + 1, text, here, by omega, read⟩
    rw [placedFrom] at inside
    cases read : Statement.ofText? (Text.trimEnd piece) with
    | none =>
      rw [read] at inside
      exact onwards inside
    | some statement =>
      rw [read] at inside
      rcases List.mem_cons.mp inside with rfl | later
      · exact ⟨0, piece, rfl, rfl, read⟩
      · exact onwards later

def firstUses (known : List Feature) : List Placed → List Placed
  | [] => []
  | p :: rest =>
    match p.statement.featureName? with
    | some name =>
      if ⟨name⟩ ∈ known then firstUses known rest else p :: firstUses (⟨name⟩ :: known) rest
    | none => firstUses known rest

theorem firstUses_same (same : ∀ feature, feature ∈ known ↔ feature ∈ others)
    (placed : List Placed) : firstUses known placed = firstUses others placed := by
  induction placed generalizing known others with
  | nil => rfl
  | cons p rest ih =>
    unfold firstUses
    cases p.statement.featureName? with
    | none => exact ih same
    | some name =>
      have more : ∀ feature, feature ∈ (⟨name⟩ : Feature) :: known ↔
          feature ∈ (⟨name⟩ : Feature) :: others := fun feature => by simp [same feature]
      simp only [same, ih same, ih more]

namespace Placed

def feature? (p : Placed) : Option Feature := p.statement.featureName?.map Feature.mk

def notFound? (decls : DeclTable) (p : Placed) : Option Diagnostic :=
  match p.statement with
  | .use name => if (decls.named? name).isNone then
      some ⟨.error, p.position, "not found: " ++ name⟩ else none
  | _ => none

def warning? (p : Placed) : Option Diagnostic :=
  p.statement.featureName?.map fun name => ⟨.warning, p.position,
    name ++ " is a language feature that should be enabled explicitly"⟩

def assertion? (p : Placed) : Option Diagnostic :=
  p.statement.claim?.map fun claim => ⟨.error, p.position, "[assert] " ++ claim⟩

end Placed

namespace SourceFile

def warned (source : SourceFile) (enabled : OrderedSet Feature) : List Placed :=
  firstUses enabled.toList source.statements

def reported (source : SourceFile) (decls : DeclTable) (enabled : OrderedSet Feature) :
    List Diagnostic :=
  source.statements.filterMap (·.notFound? decls) ++
    (source.warned enabled).filterMap (·.warning?) ++
    source.statements.filterMap (·.assertion?)

end SourceFile

namespace StandardChecks

-- Checks that ask for no feature report the same at any time.
theorem reports_plain {checks : List DeferredCheck} (u : CompilationUnit)
    (plain : ∀ check ∈ checks, feature? check = none) (earlier : List DeferredCheck) :
    reports enabled u earlier checks = checks.filterMap (report? enabled u []) := by
  induction checks generalizing earlier with
  | nil => rfl
  | cons check rest ih =>
    obtain ⟨here, others⟩ := List.forall_mem_cons.mp plain
    have same : report? enabled u earlier check = report? enabled u [] check := by
      cases check with
      | featureEnabled feature position => cases here
      | _ => rfl
    rw [reports, ih others, same]
    cases told : report? enabled u [] check with
    | none => rw [List.filterMap_cons_none told, Option.toList_none, List.nil_append]
    | some d =>
      rw [List.filterMap_cons_some told, Option.toList_some, List.singleton_append]

theorem reports_features {u : CompilationUnit} {placed : List Placed}
    {at_ : Placed → Position} (fresh : u.features.toList = [])
    (stands : ∀ p ∈ placed, at_ p = p.position) (earlier : List DeferredCheck) :
    reports enabled u earlier (placed.filterMap fun p => p.statement.featureName?.map fun used =>
        .featureEnabled ⟨used⟩ (at_ p)) =
      (firstUses (enabled.toList ++ earlier.filterMap feature?) placed).filterMap
        (·.warning?) := by
  induction placed generalizing earlier with
  | nil => rfl
  | cons p rest ih =>
    obtain ⟨here, others⟩ := List.forall_mem_cons.mp stands
    have later := ih others
    cases used : p.statement.featureName? with
    | none => simp only [List.filterMap_cons, used, Option.map_none, firstUses, later]
    | some name =>
      have next := later (earlier ++ [.featureEnabled ⟨name⟩ p.position])
      simp only [List.filterMap_append, List.filterMap_cons, List.filterMap_nil, feature?] at next
      simp only [List.filterMap_cons, used, Option.map_some, firstUses, reports, here, report?,
        next, fresh, List.not_mem_nil, false_or, List.mem_append]
      by_cases known : ⟨name⟩ ∈ enabled.toList ∨ ⟨name⟩ ∈ earlier.filterMap feature?
      · simp only [known, if_true, Option.toList_none, List.nil_append]
        refine congrArg _ (firstUses_same (fun feature => ?_) rest)
        simp only [List.mem_append, List.mem_singleton]
        constructor
        · rintro (allowed | asked | rfl)
          · exact Or.inl allowed
          · exact Or.inr asked
          · exact known
        · rintro (allowed | asked)
          · exact Or.inl allowed
          · exact Or.inr (Or.inl asked)
      · simp only [known, if_false, Option.toList_some, List.singleton_append,
          List.filterMap_cons, Placed.warning?, used, Option.map_some]
        refine congrArg _ (congrArg _ (firstUses_same (fun feature => ?_) rest))
        simp only [List.mem_append, List.mem_cons, List.not_mem_nil, or_false]
        tauto

theorem missing_features {placed : List Placed} {at_ : Placed → Position}
    (known : OrderedSet Feature) :
    (known.insertAll (missing enabled (placed.filterMap fun p =>
        p.statement.featureName?.map fun used => .featureEnabled ⟨used⟩ (at_ p)))).toList =
      known.toList ++ (firstUses (enabled.toList ++ known.toList) placed).filterMap
        (·.feature?) := by
  induction placed generalizing known with
  | nil => simp [missing, firstUses, OrderedSet.insertAll]
  | cons p rest ih =>
    cases used : p.statement.featureName? with
    | none => simp only [List.filterMap_cons, used, Option.map_none, firstUses, ih]
    | some name =>
      simp only [List.filterMap_cons, used, Option.map_some, firstUses, List.mem_append,
        missing, feature?, List.filter_cons]
      by_cases allowed : ⟨name⟩ ∈ enabled.toList
      · simp only [allowed, not_true_eq_false, decide_false, Bool.false_eq_true, if_false, true_or,
          if_true]
        exact ih known
      · simp only [allowed, not_false_eq_true, decide_true, if_true, false_or,
          OrderedSet.insertAll_cons]
        refine (ih (known.insert ⟨name⟩)).trans ?_
        by_cases old : ⟨name⟩ ∈ known.toList
        · rw [OrderedSet.insert_known old, if_pos old]
        · rw [OrderedSet.insert_new old, if_neg old, List.filterMap_cons, Placed.feature?, used,
            Option.map_some, List.append_assoc]
          refine congrArg _ (congrArg _ (congrArg _ (firstUses_same (fun feature => ?_) rest)))
          simp only [List.mem_append, List.mem_cons, List.not_mem_nil, or_false]
          tauto

end StandardChecks

namespace SourceFile
open StandardChecks

theorem built_position (fits : source.Fits) (declares : decls.Declares source)
    (inside : (at_, Placed.node p) ∈ source.entries) :
    (source.built decls s order).nodePosition at_ = source.position (.ofNat p.offset) := by
  have found : (source.built decls s order).trees.get? at_ = some p.node :=
    inBody_found fits declares (inBody_entry order inside)
  rw [CompilationUnit.nodePosition, found]
  rfl

theorem validations_plain : ∀ check ∈ source.validations, feature? check = none := by
  intro check inside
  obtain ⟨e, _, due⟩ := List.mem_filterMap.mp inside
  unfold Statement.validation? at due
  split at due
  · cases due
    rfl
  · cases due

theorem reports_validations (fits : source.Fits) (declares : decls.Declares source)
    (small : source.length < UInt64.size) (earlier : List DeferredCheck) :
    reports enabled (source.built decls s order) earlier source.validations =
      source.statements.filterMap (·.assertion?) := by
  rw [reports_plain _ validations_plain, validations, List.filterMap_filterMap]
  refine entries_filterMap fun at_ p among inside => ?_
  have place : (source.built decls s order).nodePosition at_ = _ :=
    built_position fits declares inside
  rw [statement_position small among] at place
  cases statement : p.statement with
  | assert claim =>
    simp only [Statement.validation?, Placed.node, statement, Statement.kind, Option.bind_some,
      report?, StandardChecks.place, place, Placed.assertion?, Statement.claim?, Option.map_some]
    rfl
  | _ => simp [Statement.validation?, Placed.node, statement, Statement.kind, Placed.assertion?,
      Statement.claim?]

theorem finished_diagnostics (fits : source.Fits) (declares : decls.Declares source)
    (small : source.length < UInt64.size) :
    (source.finished decls s order false enabled).diagnostics.toList =
      source.reported decls enabled := by
  have names : source.statements.filterMap (·.unresolved? decls source) =
      source.statements.filterMap (·.notFound? decls) := by
    refine List.filterMap_congr fun p inside => ?_
    cases statement : p.statement <;> simp only [Placed.unresolved?, Placed.notFound?, statement,
      statement_position small inside]
  have features : reports enabled (source.built decls s order) [] source.featureChecks =
      (firstUses (enabled.toList ++ []) source.statements).filterMap (·.warning?) :=
    reports_features rfl (fun p inside => statement_position small inside) []
  have all : unanswered (Statement.answersOf false) source.lastChecks = source.lastChecks :=
    List.filter_eq_self.mpr fun _ _ => rfl
  have start : (source.built decls s order).diagnostics.toList =
      source.statements.filterMap (·.unresolved? decls source) := rfl
  rw [finished, all, lastChecks]
  simp only [CompilationUnit.withChecks, after, start, names, reports_append, features,
    reports_validations fits declares small, reported, warned]
  simp [reports, report?]

theorem finished_features :
    (source.finished decls s order false enabled).features.toList =
      (source.warned enabled).filterMap (·.feature?) := by
  have all : unanswered (Statement.answersOf false) source.lastChecks = source.lastChecks :=
    List.filter_eq_self.mpr fun _ _ => rfl
  have asked : missing enabled source.lastChecks = missing enabled source.featureChecks := by
    have others : source.validations.filterMap feature? = [] :=
      List.filterMap_eq_nil_iff.mpr validations_plain
    simp [missing, lastChecks, others, feature?]
  have told : (({} : OrderedSet Feature).insertAll (missing enabled source.featureChecks)).toList =
      (firstUses (enabled.toList ++ []) source.statements).filterMap (·.feature?) :=
    missing_features {}
  rw [finished, all]
  simp only [CompilationUnit.withChecks, after, asked]
  rw [warned, ← List.append_nil enabled.toList]
  exact told

end SourceFile

-- What a unit has been told about its source: everything that there is to report and
-- nothing else, and the features it is warned about. Each statement is reported in the
-- first column of its own line.
structure Reported (decls : DeclTable) (enabled : OrderedSet Feature) (unit : CompilationUnit) :
    Prop where
  diagnostics : unit.diagnostics.toList = unit.source.reported decls enabled
  features : unit.features.toList = (unit.source.warned enabled).filterMap (·.feature?)
  lines : ∀ p ∈ unit.source.statements, p.position.column = 1 ∧
    ∃ i piece, (Text.pieces unit.source.chars)[i]? = some piece ∧
      p.position.line.toNat = i + 1 ∧ Text.trimEnd piece = p.statement.render.toList

theorem SourceFile.statement_line (small : source.length < UInt32.size - 1)
    (inside : p ∈ source.statements) :
    ∃ i piece, (Text.pieces source.chars)[i]? = some piece ∧
      p.position.line.toNat = i + 1 ∧ Text.trimEnd piece = p.statement.render.toList := by
  obtain ⟨i, piece, here, number, read⟩ := placed_line inside
  have word := statement_number small inside
  exact ⟨i, piece, here, by omega, Statement.ofText?_exact.mp read⟩

theorem Loaded.ofSmall (told : DeclTable.ofSources {} sources = .ok decls)
    (small : ∀ source ∈ sources, source.length < UInt32.size - 1) : Loaded sources decls :=
  ⟨told, fun source inside => SourceFile.fits_small (Nat.lt_trans (small source inside) (by decide))⟩

theorem pipeline_reports (told : DeclTable.ofSources {} sources = .ok decls)
    (small : ∀ source ∈ sources, source.length < UInt32.size - 1) (enough : 2 ≤ limit)
    {reorder : List DeclId → List DeclId} (orders : ∀ keys, (reorder keys).Perm keys)
    (session : Session) (enabled : OrderedSet Feature) :
    let d := Statement.pipeline StandardChecks.runner decls false reorder
    (∃ r, d.run limit ⟨session, enabled⟩ sources = some r) ∧
      ∀ r, d.run limit ⟨session, enabled⟩ sources = some r → ∀ seat ∈ r.report.survivors,
        sources[seat.slot]? = some seat.unit.source ∧ Reported decls enabled seat.unit := by
  intro d
  have loaded := Loaded.ofSmall told small
  obtain ⟨ends, _⟩ := pipeline_fates loaded enough orders false false ⟨session, enabled⟩
  refine ⟨ends, fun r ran seat inside => ?_⟩
  obtain ⟨source, here, _, fits, declares, finished⟩ :=
    pipeline_survivor loaded enough orders false false ⟨session, enabled⟩ ran inside
  have short := small source (List.mem_of_getElem? here)
  have wide : source.length < UInt64.size := Nat.lt_trans short (by decide)
  rw [finished]
  refine ⟨here, SourceFile.finished_diagnostics fits declares wide, SourceFile.finished_features, ?_⟩
  exact fun p inside => ⟨rfl, SourceFile.statement_line short inside⟩

def twoReports : List SourceFile :=
  [.persistent "A" "use a\r\n\n  \nuse é\r\nassert é\t\nfeature g\nuse a\ndef é",
    .inMemory "B" "feature f\nuse é.apply\nfeature f"]

theorem twoReports_reported : ∃ r, (Statement.pipeline StandardChecks.runner (tableOf twoReports)
      false List.reverse).run 2 ⟨{}, ⟨[⟨"g"⟩]⟩⟩ twoReports = some r ∧
    (∀ seat ∈ r.report.survivors, twoReports[seat.slot]? = some seat.unit.source ∧
      Reported (tableOf twoReports) ⟨[⟨"g"⟩]⟩ seat.unit) ∧
    r.report.survivors.map (fun seat => seat.unit.diagnostics.toList.map fun d =>
        (d.position.line, d.position.offset, d.message)) =
      [[(1, 0, "not found: a"), (7, 40, "not found: a"), (5, 19, "[assert] é")],
        [(2, 10, "not found: é.apply"),
          (1, 0, "f is a language feature that should be enabled explicitly")]] := by
  have declared : DeclTable.ofSources {} twoReports = .ok (tableOf twoReports) := by
    decide +kernel
  obtain ⟨⟨r, ran⟩, reports⟩ := pipeline_reports declared (by decide) (Nat.le_refl 2)
    List.reverse_perm {} ⟨[⟨"g"⟩]⟩
  have told : ((Statement.pipeline StandardChecks.runner (tableOf twoReports) false
      List.reverse).run 2 ⟨{}, ⟨[⟨"g"⟩]⟩⟩ twoReports).map (fun r =>
        r.report.survivors.map (fun seat => seat.unit.diagnostics.toList.map fun d =>
          (d.position.line, d.position.offset, d.message))) = some
      [[(1, 0, "not found: a"), (7, 40, "not found: a"), (5, 19, "[assert] é")],
        [(2, 10, "not found: é.apply"),
          (1, 0, "f is a language feature that should be enabled explicitly")]] := by
    decide +kernel
  rw [ran] at told
  exact ⟨r, ran, reports r ran, Option.some.inj told⟩

end UnitPipeline
