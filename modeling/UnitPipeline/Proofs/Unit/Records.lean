import UnitPipeline.Proofs.Name.Collision
import UnitPipeline.Proofs.Unit.Jobs

namespace UnitPipeline

namespace Job

def clears : Job → Bool
  | step (.change .clear) => true
  | _ => false

def stem? : Job → Option String
  | step (.change op) => op.stem?
  | _ => none

def noted? : Job → Option Position
  | step (.change (.noteXml position)) => some position
  | _ => none

def added? : Job → Option IrClass
  | step (.change (.addArtifact artifact)) => some artifact
  | _ => none

end Job

-- The jobs behind the last that clears the unit; and of these the XML positions that they
-- note and the classes that they add. Stems are asked of all jobs.
def recent (jobs : List Job) : List Job :=
  (jobs.reverse.takeWhile fun job => !job.clears).reverse

def noted (jobs : List Job) : List Position := (recent jobs).filterMap Job.noted?

def added (jobs : List Job) : List IrClass := (recent jobs).filterMap Job.added?

section
variable {job : Job} {before after : List Job}

theorem recent_clear (clears : job.clears = true) : recent (before ++ [job]) = [] := by
  simp [recent, clears]

theorem recent_append (uncleared : ∀ job ∈ after, job.clears = false) :
    recent (before ++ after) = recent before ++ after := by
  have all : ∀ job ∈ after.reverse, (!job.clears) = true := by
    intro job inside
    rw [uncleared job (List.mem_reverse.mp inside)]
    rfl
  rw [recent, List.reverse_append, List.takeWhile_append_of_pos all]
  simp [recent]

end

theorem filterMap_snoc (f : Job → Option β) (jobs : List Job) (job : Job) :
    (jobs ++ [job]).filterMap f = jobs.filterMap f ++ (f job).toList := by
  rw [List.filterMap_append]
  cases found : f job <;> simp [found]

structure Job.Records (job : Job) (before after : CompilationUnit) : Prop where
  source : after.source = before.source
  fresh : after.fresh = before.fresh.after job.stem?.toList
  firstXml : after.firstXml = if job.clears then none else before.firstXml.or job.noted?
  artifacts : after.artifacts = if job.clears then {} else before.artifacts.insertAll job.added?.toList
  diagnostics : job.clears = false → before.diagnostics.toList <+: after.diagnostics.toList

section
variable {job : Job} {u v : CompilationUnit}

theorem Job.Records.aside (idle : (job.clears, job.stem?, job.noted?, job.added?) =
      (false, none, none, none))
    (same : (v.source, v.fresh, v.firstXml, v.artifacts) =
      (u.source, u.fresh, u.firstXml, u.artifacts))
    (grown : u.diagnostics.toList <+: v.diagnostics.toList) : job.Records u v := by
  simp only [Prod.mk.injEq] at idle same
  obtain ⟨clears, stem, noted, added⟩ := idle
  obtain ⟨source, fresh, firstXml, artifacts⟩ := same
  refine ⟨source, ?_, ?_, ?_, fun _ => grown⟩
  · rw [fresh, stem]
    rfl
  · simp [firstXml, clears, noted]
  · rw [artifacts, clears, added]
    rfl

theorem change_records (s : Session) (u : CompilationUnit) (op : UnitOp) :
    (Job.step (.change op)).Records u (op.apply s u) := by
  cases op with
  | noteXml position => exact ⟨rfl, rfl, rfl, rfl, fun _ => List.prefix_rfl⟩
  | addArtifact artifact =>
    exact ⟨rfl, rfl, (Option.or_none).symm, rfl, fun _ => List.prefix_rfl⟩
  | freshTerm stem | freshType stem | rawName stem =>
    exact ⟨rfl, rfl, (Option.or_none).symm, rfl, fun _ => List.prefix_rfl⟩
  | report severity position message => exact .aside rfl rfl (List.prefix_append _ _)
  | clear => exact ⟨rfl, rfl, rfl, rfl, nofun⟩
  | memoizeOnce node result =>
    refine .aside rfl ?_ ?_
    · simp only [UnitOp.apply]
      split <;> rfl
    · simp only [UnitOp.apply]
      split <;> exact List.prefix_rfl
  | _ => exact .aside rfl rfl List.prefix_rfl

theorem settled_records (enabled : OrderedSet Feature) (point : CheckPoint) (desk : Desk) :
    (Job.drain point enabled).Records desk.unit
      (StandardChecks.settled enabled point desk).desk.unit := by
  unfold StandardChecks.settled
  dsimp only
  split
  · exact .aside rfl rfl (List.prefix_append _ _)
  · exact .aside rfl rfl (List.prefix_append _ _)

end

section
variable {limit : Nat} {desk middle last : Desk} {job : Job} {jobs before after : List Job}
  {source : SourceFile}

theorem job_records (enough : 2 ≤ limit) (ran : job.run limit desk = some last) :
    job.Records desk.unit last.unit := by
  cases job with
  | step s =>
    cases Option.some.inj ran
    cases s with
    | change op => exact change_records desk.session desk.unit op
    | enterPhase phase => exact .aside rfl rfl List.prefix_rfl
    | setTracking on => exact .aside rfl rfl List.prefix_rfl
  | drain point enabled =>
    rw [Job.run_drain enough] at ran
    cases Option.some.inj ran
    exact settled_records enabled point desk

structure Kept (source : SourceFile) (earlier : List String) (jobs : List Job)
    (u : CompilationUnit) : Prop where
  source : u.source = source
  fresh : u.fresh = ({} : FreshNames).after (earlier ++ jobs.filterMap Job.stem?)
  firstXml : u.firstXml = (noted jobs).head?
  artifacts : u.artifacts = ({} : OrderedSet IrClass).insertAll (added jobs)

theorem Kept.next {u v : CompilationUnit} (kept : Kept source earlier jobs u)
    (records : job.Records u v) : Kept source earlier (jobs ++ [job]) v := by
  refine ⟨records.source.trans kept.source, ?_, ?_, ?_⟩
  · rw [records.fresh, kept.fresh, filterMap_snoc, ← List.append_assoc]
    exact List.foldl_append.symm
  · rw [records.firstXml]
    cases clears : job.clears with
    | true =>
      rw [noted, recent_clear clears]
      rfl
    | false =>
      rw [kept.firstXml, noted, noted, recent_append (by simpa using clears), filterMap_snoc,
        List.head?_append]
      cases job.noted? <;> rfl
  · rw [records.artifacts]
    cases clears : job.clears with
    | true =>
      rw [added, recent_clear clears]
      rfl
    | false =>
      rw [kept.artifacts, added, added, recent_append (by simpa using clears), filterMap_snoc]
      exact (OrderedSet.insertAll_append _ _ _).symm

theorem Kept.through (enough : 2 ≤ limit) (kept : Kept source earlier before desk.unit)
    (ran : desk.through limit jobs = some last) :
    Kept source earlier (before ++ jobs) last.unit := by
  induction jobs generalizing before desk with
  | nil =>
    cases Option.some.inj ran
    rwa [List.append_nil]
  | cons job rest ih =>
    obtain ⟨middle, first, later⟩ := Option.bind_eq_some_iff.mp ran
    have onwards := ih (kept.next (job_records enough first)) later
    rwa [List.append_assoc] at onwards

theorem reports_grow (enough : 2 ≤ limit) (ran : desk.through limit jobs = some last)
    (uncleared : ∀ job ∈ jobs, job.clears = false) :
    desk.unit.diagnostics.toList <+: last.unit.diagnostics.toList := by
  induction jobs generalizing desk with
  | nil =>
    cases Option.some.inj ran
    exact List.prefix_rfl
  | cons job rest ih =>
    obtain ⟨middle, first, later⟩ := Option.bind_eq_some_iff.mp ran
    obtain ⟨here, others⟩ := List.forall_mem_cons.mp uncleared
    exact ((job_records enough first).diagnostics here).trans (ih later others)

end

theorem counts_sum (ds : Diagnostics) :
    ds.count .info + ds.count .warning + ds.count .error = ds.length := by
  obtain ⟨list⟩ := ds
  simp only [Diagnostics.count, Diagnostics.length]
  induction list with
  | nil => rfl
  | cons d rest ih =>
    simp only [List.countP_cons, List.length_cons]
    cases d.severity <;> simp <;> omega

theorem errors_stay {a b : Diagnostics} (grown : a.toList <+: b.toList)
    (errors : a.hasErrors = true) : b.hasErrors = true := by
  have more : a.count .error ≤ b.count .error := grown.sublist.countP_le
  have some : 0 < a.count .error := of_decide_eq_true errors
  exact decide_eq_true (Nat.lt_of_lt_of_le some more)

structure Recorded (source : SourceFile) (earlier : List String) (jobs : List Job) (desk : Desk) :
    Prop where
  display : desk.unit.display = source.display
  source : desk.unit.source = source
  counts : ∀ stem, (desk.unit.fresh.count stem).toNat =
    (earlier ++ jobs.filterMap Job.stem?).count stem % UInt64.size
  firstXml : desk.unit.firstXml = (noted jobs).head?
  noting : ∀ position,
    ((UnitOp.noteXml position).answer desk.session desk.unit : Bool) = true ↔ noted jobs = []
  artifacts : desk.unit.artifacts.toList = (added jobs).eraseDups
  adding : ∀ artifact, ((UnitOp.addArtifact artifact).answer desk.session desk.unit : Bool) = true ↔
    artifact ∉ added jobs
  severities : desk.unit.diagnostics.count .info + desk.unit.diagnostics.count .warning +
    desk.unit.diagnostics.count .error = desk.unit.diagnostics.length

theorem Kept.recorded {source : SourceFile} {desk : Desk}
    (kept : Kept source earlier jobs desk.unit) : Recorded source earlier jobs desk where
  display := congrArg SourceFile.display kept.source
  source := kept.source
  counts stem := by
    have begun : (({} : FreshNames).count stem).toNat = 0 := rfl
    rw [kept.fresh, count_after, begun, Nat.zero_add]
  firstXml := kept.firstXml
  noting position := by
    change desk.unit.firstXml.isNone = true ↔ _
    rw [kept.firstXml, Option.isNone_iff_eq_none, List.head?_eq_none_iff]
  artifacts := by
    rw [kept.artifacts, OrderedSet.insertAll_toList]
    simp [List.removeAll]
  adding artifact := by
    change (!desk.unit.artifacts.contains artifact) = true ↔ _
    simp [kept.artifacts, OrderedSet.contains, OrderedSet.mem_insertAll]
  severities := counts_sum desk.unit.diagnostics

-- The records of a unit at a moment, and at any later one. The counters only repeat after
-- all their values.
theorem records_hold (enough : 2 ≤ limit) (session : Session) (source : SourceFile)
    (earlier : List String) (before after : List Job) :
    ∃ middle last,
      Desk.through limit ⟨session, .withFreshNames source (({} : FreshNames).after earlier)⟩ before =
        some middle ∧
      middle.through limit after = some last ∧
      Recorded source earlier before middle ∧ Recorded source earlier (before ++ after) last ∧
      (∀ stem, (earlier ++ (before ++ after).filterMap Job.stem?).count stem < UInt64.size →
        middle.unit.fresh.count stem ≤ last.unit.fresh.count stem) ∧
      ((∀ job ∈ after, job.clears = false) →
        (∀ position, middle.unit.firstXml = some position → last.unit.firstXml = some position) ∧
        middle.unit.artifacts.toList <+: last.unit.artifacts.toList ∧
        middle.unit.diagnostics.toList <+: last.unit.diagnostics.toList ∧
        (middle.unit.diagnostics.hasErrors = true → last.unit.diagnostics.hasErrors = true)) := by
  obtain ⟨middle, first⟩ := jobs_end enough before
    ⟨session, .withFreshNames source (({} : FreshNames).after earlier)⟩
  obtain ⟨last, later⟩ := jobs_end enough after middle
  have begun : Kept source earlier []
      (CompilationUnit.withFreshNames source (({} : FreshNames).after earlier)) := by
    refine ⟨rfl, ?_, rfl, rfl⟩
    simp [CompilationUnit.withFreshNames]
  have now := begun.through enough first
  have afterwards := now.through enough later
  rw [List.nil_append] at now afterwards
  refine ⟨middle, last, first, later, now.recorded, afterwards.recorded, ?_, ?_⟩
  · intro stem bounded
    have more : (earlier ++ before.filterMap Job.stem?).count stem ≤
        (earlier ++ (before ++ after).filterMap Job.stem?).count stem := by
      simp only [List.filterMap_append, List.count_append]
      omega
    rw [UInt64.le_iff_toNat_le, now.recorded.counts, afterwards.recorded.counts,
      Nat.mod_eq_of_lt bounded, Nat.mod_eq_of_lt (Nat.lt_of_le_of_lt more bounded)]
    exact more
  · intro uncleared
    have grown := reports_grow enough later uncleared
    refine ⟨?_, ?_, grown, errors_stay grown⟩
    · intro position found
      rw [afterwards.firstXml, noted, recent_append uncleared, List.filterMap_append, List.head?_append,
        ← noted, ← now.firstXml, found]
      rfl
    · rw [afterwards.artifacts, added, recent_append uncleared, List.filterMap_append,
        OrderedSet.insertAll_append, ← added, ← now.artifacts, OrderedSet.insertAll_toList]
      exact List.prefix_append _ _

def notedTwice : List Job :=
  [.step (.change (.noteXml ⟨3, 1, 4⟩)), .step (.change (.addArtifact ⟨"A", none, []⟩)),
    .step (.change (.freshTerm "x")), .step (.change (.noteXml ⟨7, 1, 8⟩)),
    .step (.change (.addArtifact ⟨"B", none, []⟩)), .step (.change (.addArtifact ⟨"A", none, []⟩)),
    .step (.change (.queueCheck .postUnit (.validate "v" none "m"))), .drain .postUnit {}]

theorem notedTwice_recorded : ∃ middle last,
    Desk.through 2 ⟨{}, .withFreshNames (.persistent "A.scala" "") (({} : FreshNames).after ["x"])⟩
      notedTwice = some middle ∧
    middle.through 2 (.step (.change .clear) :: notedTwice.reverse) = some last ∧
    middle.unit.firstXml = some ⟨3, 1, 4⟩ ∧ last.unit.firstXml = some ⟨7, 1, 8⟩ ∧
    middle.unit.artifacts.toList = [⟨"A", none, []⟩, ⟨"B", none, []⟩] ∧
    (last.unit.fresh.count "x").toNat = 3 ∧ last.unit.source = .persistent "A.scala" "" := by
  obtain ⟨middle, last, first, later, now, afterwards, _⟩ :=
    records_hold (Nat.le_refl 2) {} (.persistent "A.scala" "") ["x"] notedTwice
      (.step (.change .clear) :: notedTwice.reverse)
  refine ⟨middle, last, first, later, now.firstXml, afterwards.firstXml, ?_, ?_, afterwards.source⟩
  · rw [now.artifacts]
    decide
  · rw [afterwards.counts]
    decide

end UnitPipeline
