import UnitPipeline.Proofs.Check.Begun
import UnitPipeline.Proofs.Unit.Jobs

namespace UnitPipeline
open StandardChecks

def warning (feature : Feature) (position : Position) : Diagnostic :=
  ⟨.warning, position, feature.name ++ " is a language feature that should be enabled explicitly"⟩

def Diagnostic.warnsOf (feature : Feature) (d : Diagnostic) : Bool := d = warning feature d.position

theorem warning_injective (same : warning f p = warning g q) : f = g := by
  obtain ⟨_, _, texts⟩ := Diagnostic.mk.inj same
  have names := (String.append_left_inj _).mp texts
  cases f
  cases g
  exact congrArg Feature.mk names

theorem warns_iff : (warning g position).warnsOf f = decide (g = f) := by
  apply decide_eq_decide.mpr
  constructor
  · exact warning_injective
  · rintro rfl
    rfl

def Begun.unmet? (b : Begun (OrderedSet Feature)) : Option (Feature × Position) :=
  match b.check with
  | .featureEnabled feature position =>
    if feature ∈ b.state.toList ∨ feature ∈ b.desk.unit.features.toList then none
    else some (feature, position)
  | .syntheticsDrained | .computed _ | .validate .. => none

def unmet (begun : List (Begun (OrderedSet Feature))) : List (Feature × Position) :=
  begun.filterMap Begun.unmet?

-- What checks do to the features and the reports of a unit. Warning of a feature and
-- remembering it are one.
structure Tells (before : Desk) (begun : List (Begun (OrderedSet Feature))) (after : Desk) :
    Prop where
  features : after.unit.features.toList = before.unit.features.toList ++ (unmet begun).map (·.1)
  distinct : before.unit.features.toList.Nodup → after.unit.features.toList.Nodup
  reports : ∃ told, after.unit.diagnostics.toList = before.unit.diagnostics.toList ++ told ∧
    ∀ feature, told.filter (·.warnsOf feature) =
      ((unmet begun).filter (·.1 = feature)).map fun use => warning use.1 use.2

section
variable {before after a b c : Desk}

theorem Tells.silent (features : after.unit.features = before.unit.features)
    (reports : ∃ told, after.unit.diagnostics.toList = before.unit.diagnostics.toList ++ told ∧
      ∀ feature, told.filter (·.warnsOf feature) = [])
    (none : unmet begun = []) : Tells before begun after := by
  refine ⟨?_, ?_, ?_⟩
  · rw [features, none]
    exact (List.append_nil _).symm
  · rw [features]
    exact id
  · rw [none]
    exact reports

theorem Tells.same (features : after.unit.features = before.unit.features)
    (reports : after.unit.diagnostics.toList = before.unit.diagnostics.toList)
    (none : unmet begun = []) : Tells before begun after :=
  .silent features ⟨[], by rw [reports, List.append_nil], fun _ => rfl⟩ none

theorem Tells.trans (left : Tells a now b) (right : Tells b later c) :
    Tells a (now ++ later) c := by
  obtain ⟨told, reports, first⟩ := left.reports
  obtain ⟨more, onwards, second⟩ := right.reports
  have both : unmet (now ++ later) = unmet now ++ unmet later := List.filterMap_append
  refine ⟨?_, right.distinct ∘ left.distinct, told ++ more, ?_, ?_⟩
  · rw [right.features, left.features, both, List.map_append, List.append_assoc]
  · rw [onwards, reports, List.append_assoc]
  · intro feature
    rw [List.filter_append, first, second, both, List.filter_append, List.map_append]

end

section
variable {inner : Drain (OrderedSet Feature)} {enabled : OrderedSet Feature} {desk : Desk}

theorem check_does (ran : (runner enabled check).run inner desk = some out) :
    out.desk.unit.features = desk.unit.features.insertAll (missing enabled [check]) ∧
      out.desk.unit.diagnostics.toList =
        desk.unit.diagnostics.toList ++ (report? enabled desk.unit [] check).toList := by
  have settles := check_settles inner enabled desk.session desk.unit desk.unit.checks [] check
  rw [after_nil] at settles
  obtain rfl := Option.some.inj (ran.symm.trans settles)
  cases verdict : failure? desk.unit check with
  | none =>
    rw [after_next, after_nil]
    exact ⟨rfl, rfl⟩
  | some cause =>
    cases check with
    | featureEnabled feature position => cases verdict
    | validate code node message => cases verdict
    | syntheticsDrained => exact ⟨rfl, (List.append_nil _).symm⟩
    | computed node => exact ⟨rfl, (List.append_nil _).symm⟩

theorem feature_tells
    (ran : (runner enabled (.featureEnabled feature position)).run inner desk = some out) :
    Tells desk [⟨.featureEnabled feature position, enabled, desk⟩] out.desk := by
  obtain ⟨features, reports⟩ := check_does ran
  by_cases known : feature ∈ enabled.toList ∨ feature ∈ desk.unit.features.toList
  · have none : unmet [⟨.featureEnabled feature position, enabled, desk⟩] = [] := by
      simp [unmet, Begun.unmet?, known]
    have asked : ∀ other ∈ missing enabled [.featureEnabled feature position],
        other ∈ desk.unit.features.toList := by
      intro other asked
      obtain ⟨rfl, out⟩ : other = feature ∧ other ∉ enabled.toList := by
        simpa [missing, feature?] using asked
      exact known.resolve_left out
    refine .same ?_ ?_ none
    · rw [features, OrderedSet.insertAll_known asked]
    · simpa [report?, known] using reports
  · obtain ⟨out, new⟩ := not_or.mp known
    have use : unmet [⟨.featureEnabled feature position, enabled, desk⟩] =
        [(feature, position)] := by
      simp [unmet, Begun.unmet?, known]
    have asked : missing enabled [.featureEnabled feature position] = [feature] := by
      simp [missing, feature?, out]
    have warned : report? enabled desk.unit [] (.featureEnabled feature position) =
        some (warning feature position) := by
      simp [report?, warning, out, new]
    rw [asked] at features
    rw [warned] at reports
    refine ⟨?_, ?_, [warning feature position], reports, ?_⟩
    · rw [features, use]
      exact OrderedSet.insert_new new
    · rw [features]
      exact OrderedSet.insert_nodup
    · intro other
      rw [use]
      by_cases same : feature = other
      · simp [warns_iff, same]
      · simp [warns_iff, same]

theorem standard_follows : Following runner Tells where
  refl desk := .same rfl rfl rfl
  trans := Tells.trans
  requeue desk q := .same rfl rfl rfl
  check inner enabled check desk out ran := by
    cases check with
    | featureEnabled feature position => exact feature_tells ran
    | syntheticsDrained =>
      obtain ⟨features, reports⟩ := check_does ran
      exact .same features (reports.trans (List.append_nil _)) rfl
    | computed node =>
      obtain ⟨features, reports⟩ := check_does ran
      exact .same features (reports.trans (List.append_nil _)) rfl
    | validate code node message =>
      obtain ⟨features, reports⟩ := check_does ran
      exact .silent features ⟨_, reports, fun _ => rfl⟩ rfl

end

theorem UnitOp.apply_features (keeps : op ≠ .clear) (remembers : ∀ other, op ≠ .forgetFeature other)
    (s : Session) (u : CompilationUnit) (feature : Feature) :
    feature ∈ (UnitOp.apply s u op).features.toList ↔
      feature ∈ u.features.toList ∨ op = .rememberFeature feature := by
  cases op with
  | clear => exact absurd rfl keeps
  | forgetFeature other => exact absurd rfl (remembers other)
  | rememberFeature other => simp [apply, OrderedSet.mem_insert, eq_comm]
  | memoizeOnce node result =>
    simp only [apply]
    split <;> simp
  | _ => simp [apply]

theorem UnitOp.apply_distinct (s : Session) (u : CompilationUnit) (op : UnitOp)
    (distinct : u.features.toList.Nodup) : (op.apply s u).features.toList.Nodup := by
  cases op with
  | clear => exact List.nodup_nil
  | rememberFeature feature => exact OrderedSet.insert_nodup distinct
  | forgetFeature feature => exact distinct.filter _
  | memoizeOnce node result =>
    simp only [apply]
    split <;> exact distinct
  | _ => exact distinct

def Job.Remembers (job : Job) : Prop :=
  job ≠ .step (.change .clear) ∧ ∀ feature, job ≠ .step (.change (.forgetFeature feature))

def Job.unmet (limit : Nat) (desk : Desk) : Job → List (Feature × Position)
  | step _ => []
  | drain point enabled => UnitPipeline.unmet (drainBegun runner limit point enabled desk)

def Job.reported (limit : Nat) (desk : Desk) : Job → List Diagnostic
  | step _ => []
  | drain point enabled =>
    match UnitPipeline.drain runner limit point enabled desk with
    | some out => out.desk.unit.diagnostics.toList.drop desk.unit.diagnostics.length
    | none => []

-- An account of jobs: the uses that were unmet are of features not known before, once
-- each; the warnings are for them, and what is known afterwards is owed to them, to the
-- host, or to the time before.
structure Warned (before : Desk) (uses : List (Feature × Position)) (reported : List Diagnostic)
    (jobs : List Job) (after : Desk) : Prop where
  distinct : after.unit.features.toList.Nodup
  once : (uses.map (·.1)).Nodup
  new : ∀ use ∈ uses, use.1 ∉ before.unit.features.toList
  warns : ∀ feature, reported.filter (·.warnsOf feature) =
    (uses.filter (·.1 = feature)).map fun use => warning use.1 use.2
  known : ∀ feature, feature ∈ after.unit.features.toList ↔
    (feature ∈ before.unit.features.toList ∨ feature ∈ uses.map (·.1)) ∨
      .step (.change (.rememberFeature feature)) ∈ jobs

section
variable {desk middle last : Desk}

theorem Warned.refl (distinct : desk.unit.features.toList.Nodup) : Warned desk [] [] [] desk where
  distinct := distinct
  once := List.nodup_nil
  new := nofun
  warns _ := rfl
  known feature := by simp

theorem Warned.trans (left : Warned desk uses reported jobs middle)
    (right : Warned middle others more rest last) :
    Warned desk (uses ++ others) (reported ++ more) (jobs ++ rest) last where
  distinct := right.distinct
  once := by
    rw [List.map_append, List.nodup_append]
    refine ⟨left.once, right.once, ?_⟩
    rintro feature before _ after rfl
    obtain ⟨use, inside, rfl⟩ := List.mem_map.mp after
    exact right.new use inside ((left.known use.1).mpr (Or.inl (Or.inr before)))
  new := by
    intro use inside
    rcases List.mem_append.mp inside with before | after
    · exact left.new use before
    · intro known
      exact right.new use after ((left.known use.1).mpr (Or.inl (Or.inl known)))
  warns feature := by
    rw [List.filter_append, left.warns, right.warns, List.filter_append, List.map_append]
  known feature := by
    rw [right.known, left.known, List.map_append, List.mem_append, List.mem_append]
    grind

theorem Warned.step (distinct : desk.unit.features.toList.Nodup) {step : Step}
    (remembers : (Job.step step).Remembers) :
    Warned desk [] [] [.step step] (step.apply desk) where
  distinct := by
    cases step with
    | change op => exact op.apply_distinct _ _ distinct
    | enterPhase phase => exact distinct
    | setTracking on => exact distinct
  once := List.nodup_nil
  new := nofun
  warns _ := rfl
  known feature := by
    cases step with
    | change op =>
      have keeps : op ≠ .clear := fun same => remembers.1 (congrArg (Job.step ∘ Step.change) same)
      have holds (other : Feature) : op ≠ .forgetFeature other :=
        fun same => remembers.2 other (congrArg (Job.step ∘ Step.change) same)
      have applied := op.apply_features keeps holds desk.session desk.unit feature
      simpa [Step.apply, eq_comm] using applied
    | enterPhase phase => simp [Step.apply]
    | setTracking on => simp [Step.apply]

theorem Warned.drain (distinct : desk.unit.features.toList.Nodup)
    (ran : UnitPipeline.drain runner limit point enabled desk = some out) :
    Warned desk ((Job.drain point enabled).unmet limit desk)
      ((Job.drain point enabled).reported limit desk) [.drain point enabled] out.desk := by
  have tells : Tells desk (drainBegun runner limit point enabled desk) out.desk :=
    drainFrom_follows standard_follows ran
  obtain ⟨told, reports, warns⟩ := tells.reports
  have apart := tells.distinct distinct
  rw [tells.features, List.nodup_append] at apart
  obtain ⟨_, once, disjoint⟩ := apart
  refine ⟨tells.distinct distinct, once, ?_, ?_, ?_⟩
  · intro use inside known
    exact disjoint _ known _ (List.mem_map_of_mem inside) rfl
  · intro feature
    have appended : (Job.drain point enabled).reported limit desk = told := by
      simp [Job.reported, ran, reports, Diagnostics.length]
    rw [appended]
    exact warns feature
  · intro feature
    rw [tells.features, List.mem_append]
    simp [Job.unmet]

theorem jobs_warned (enough : 2 ≤ limit) (jobs : List Job)
    (remembers : ∀ job ∈ jobs, job.Remembers) (distinct : desk.unit.features.toList.Nodup) :
    ∃ last, desk.through limit jobs = some last ∧
      Warned desk (gathered limit (Job.unmet limit) desk jobs)
        (gathered limit (Job.reported limit) desk jobs) jobs last := by
  induction jobs generalizing desk with
  | nil => exact ⟨desk, rfl, .refl distinct⟩
  | cons job rest ih =>
    obtain ⟨here, others⟩ := List.forall_mem_cons.mp remembers
    obtain ⟨middle, first⟩ := job.ends enough desk
    have one : Warned desk (job.unmet limit desk) (job.reported limit desk) [job] middle := by
      cases job with
      | step s =>
        cases Option.some.inj first
        exact .step distinct here
      | drain point enabled =>
        obtain ⟨out, ran, rfl⟩ := Option.map_eq_some_iff.mp first
        exact .drain distinct ran
    obtain ⟨last, ran, later⟩ := ih others one.distinct
    refine ⟨last, (through_cons first).trans ran, ?_⟩
    rw [gathered_cons first, gathered_cons first]
    exact one.trans later

theorem uses_once {uses : List (Feature × Position)} (once : (uses.map (·.1)).Nodup)
    (feature : Feature) : (uses.filter (·.1 = feature)).length ≤ 1 := by
  have counted := List.nodup_iff_count.mp once feature
  rw [List.count, List.countP_map, List.countP_eq_length_filter] at counted
  exact counted

end

-- A feature is warned of once in a unit at most: for the first check that a runner began
-- with the feature neither enabled nor known, at its place. The set of known features
-- holds those that were warned of and those that the host put there.
theorem feature_warned_once (enough : 2 ≤ limit) (session : Session) (source : SourceFile)
    (fresh : FreshNames) (jobs : List Job) (remembers : ∀ job ∈ jobs, job.Remembers) :
    let desk : Desk := ⟨session, .withFreshNames source fresh⟩
    ∃ last, desk.through limit jobs = some last ∧ ∀ feature,
      let uses := (gathered limit (Job.unmet limit) desk jobs).filter (·.1 = feature)
      let warned := (gathered limit (Job.reported limit) desk jobs).filter (·.warnsOf feature)
      warned.length ≤ 1 ∧ (warned ≠ [] ↔ uses ≠ []) ∧
        warned.map (·.position) = (uses.head?.map (·.2)).toList ∧
        (feature ∈ last.unit.features.toList ↔
          warned ≠ [] ∨ .step (.change (.rememberFeature feature)) ∈ jobs) := by
  intro desk
  have distinct : desk.unit.features.toList.Nodup := List.nodup_nil
  obtain ⟨last, ran, account⟩ := jobs_warned enough jobs remembers distinct
  refine ⟨last, ran, ?_⟩
  intro feature uses warned
  have warns : warned = uses.map fun use => warning use.1 use.2 := account.warns feature
  have single : uses.length ≤ 1 := uses_once account.once feature
  have some : warned ≠ [] ↔ uses ≠ [] := by rw [warns, ne_eq, List.map_eq_nil_iff]
  refine ⟨?_, some, ?_, ?_⟩
  · rwa [warns, List.length_map]
  · rw [warns]
    match uses, single with
    | [], _ => rfl
    | [use], _ => rfl
  · have met : uses ≠ [] ↔ feature ∈ (gathered limit (Job.unmet limit) desk jobs).map (·.1) := by
      simp [uses, List.filter_eq_nil_iff]
    have none : feature ∉ desk.unit.features.toList := List.not_mem_nil
    rw [account.known, some, met, or_iff_right none]

def repeatedDrains : List Job :=
  let asks (point : CheckPoint) (name : String) (offset : UInt64) : Job :=
    .step (.change (.queueCheck point (.featureEnabled ⟨name⟩ ⟨offset, 1, 1⟩)))
  [.step (.change (.stage ⟨1⟩ ⟨0⟩)), asks .postTyper "macros" 3,
    .step (.change (.queueCheck .postTyper .syntheticsDrained)), asks .postTyper "macros" 7,
    .drain .postTyper {}, .drain .postTyper {},
    .step (.change (.rememberFeature ⟨"dynamics"⟩)), asks .postUnit "dynamics" 9,
    asks .postUnit "higherKinds" 11, .drain .postUnit ⟨[⟨"higherKinds"⟩]⟩,
    asks .postUnit "higherKinds" 13, .drain .postUnit {}]

theorem repeatedDrains_warned :
    let desk : Desk := ⟨{}, .withFreshNames (.persistent "A.scala" "") {}⟩
    let reported := gathered 2 (Job.reported 2) desk repeatedDrains
    (∀ job ∈ repeatedDrains, job.Remembers) ∧ ∃ last, desk.through 2 repeatedDrains = some last ∧
      (reported.filter (·.warnsOf ⟨"macros"⟩)).map (·.position) = [⟨3, 1, 1⟩] ∧
      (reported.filter (·.warnsOf ⟨"higherKinds"⟩)).map (·.position) = [⟨13, 1, 1⟩] ∧
      ⟨"dynamics"⟩ ∈ last.unit.features.toList := by
  intro desk reported
  have remembers : ∀ job ∈ repeatedDrains, job.Remembers := by
    simp [repeatedDrains, Job.Remembers]
  obtain ⟨last, ran, told⟩ := feature_warned_once (Nat.le_refl 2) {} (.persistent "A.scala" "") {}
    repeatedDrains remembers
  refine ⟨remembers, last, ran, (told ⟨"macros"⟩).2.2.1, (told ⟨"higherKinds"⟩).2.2.1, ?_⟩
  exact (told ⟨"dynamics"⟩).2.2.2.mpr (Or.inr (by simp [repeatedDrains]))

end UnitPipeline
