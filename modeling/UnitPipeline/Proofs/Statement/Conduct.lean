import UnitPipeline.Proofs.Check.Answering
import UnitPipeline.Proofs.Run.Isolation

namespace UnitPipeline
variable {σ α : Type} {allowed : Deed → Prop}

theorem forAll_does {f : α → Action σ Unit} (each : ∀ item, (f item).Does allowed)
    (items : List α) : (Action.forAll f items).Does allowed := by
  induction items with
  | nil => exact True.intro
  | cons item rest ih => exact bind_does (each item) fun _ => ih

namespace Statement

-- The phases do nothing but look at their unit and change it.
section
variable (free : ∀ op, allowed (.change op))
include free

theorem noteXml_does (span : Span) (statement : Statement) :
    (noteXml (σ := σ) span statement).Does allowed := by
  cases statement with
  | xml => exact fun _ _ => ⟨free _, fun _ => True.intro⟩
  | _ => exact True.intro

theorem parseLines_does (lines : List SourceLine) : (parseLines (σ := σ) lines).Does allowed := by
  induction lines with
  | nil => exact True.intro
  | cons line rest ih =>
    unfold parseLines
    split
    · exact ih
    · split
      · exact True.intro
      · refine bind_does (noteXml_does free _ _) fun _ => ⟨free _, fun _ => ?_⟩
        exact bind_does ih fun _ => True.intro

theorem parse_does : (parse (σ := σ)).Does allowed := by
  intro s u
  refine bind_does (parseLines_does free _) fun result => ?_
  cases result with
  | error e => exact True.intro
  | ok children => exact ⟨free _, fun _ => ⟨free _, fun _ => True.intro⟩⟩

theorem nameOne_does (decls : DeclTable) (entry : NodeId × Node) :
    (nameOne (σ := σ) decls entry).Does allowed := by
  unfold nameOne
  split
  · dsimp only
    split
    · exact ⟨free _, fun _ => True.intro⟩
    · exact True.intro
  · refine bind_does ?_ fun _ => ?_
    · dsimp only
      split
      · exact ⟨free _, fun _ => True.intro⟩
      · exact True.intro
    · split
      · exact ⟨free _, fun _ => ⟨free _, fun _ => True.intro⟩⟩
      · exact True.intro
  · split
    · exact ⟨free _, fun _ => True.intro⟩
    · exact fun _ _ => ⟨free _, fun _ => True.intro⟩
  · exact True.intro

theorem name_does (decls : DeclTable) : (name (σ := σ) decls).Does allowed :=
  fun _ _ => bind_does (forAll_does (nameOne_does free decls) _) fun _ => True.intro

theorem rehome_does (root : NodeId) (decl : DeclId) : (rehome (σ := σ) root decl).Does allowed := by
  refine ⟨free _, fun answer => ?_⟩
  cases answer with
  | none => exact True.intro
  | some tree => exact ⟨free _, fun _ => ⟨free _, fun _ => True.intro⟩⟩

theorem checkOne_does (entry : NodeId × Node) : (checkOne (σ := σ) entry).Does allowed := by
  have queues : (queueFeature (σ := σ) entry).Does allowed := by
    unfold queueFeature
    split
    · split
      · exact fun _ _ => ⟨free _, fun _ => True.intro⟩
      · exact True.intro
    · exact True.intro
  intro s u
  dsimp only
  split
  · exact bind_does queues fun _ => ⟨free _, fun _ => True.intro⟩
  · exact True.intro

theorem type_does (leak : Bool) (order : List DeclId → List DeclId) :
    (type (σ := σ) leak order).Does allowed := by
  intro s u
  dsimp only
  split
  · exact True.intro
  · refine ⟨free _, fun _ => bind_does (forAll_does (rehome_does free _) _) fun _ => fun _ _ => ?_⟩
    exact bind_does (forAll_does (checkOne_does free) _) fun _ => ⟨free _, fun _ => True.intro⟩

end

theorem generate_does (adds : ∀ artifact, allowed (.change (.addArtifact artifact)))
    (queues : ∀ point check, allowed (.change (.queueCheck point check))) (decls : DeclTable) :
    (generate (σ := σ) decls).Does allowed := by
  have each (entry : NodeId × Node) : (generateOne (σ := σ) decls entry).Does allowed := by
    unfold generateOne
    split
    · exact ⟨queues _ _, fun _ => True.intro⟩
    · split
      · exact ⟨adds _, fun _ => True.intro⟩
      · exact True.intro
  intro s u
  dsimp only
  split
  · exact True.intro
  · exact bind_does (forAll_does each _) fun _ => ⟨queues _ _, fun _ => True.intro⟩

theorem phases_do (free : ∀ op, allowed (.change op)) (decls : DeclTable) (leak : Bool)
    (order : List DeclId → List DeclId) :
    ∀ p ∈ phases (σ := σ) decls leak order, ∃ phase work, p = stateless phase work ∧
      work.Does allowed := by
  intro p known
  simp only [phases, List.mem_cons, List.not_mem_nil, or_false] at known
  rcases known with rfl | rfl | rfl | rfl
  · exact ⟨_, _, rfl, parse_does free⟩
  · exact ⟨_, _, rfl, name_does free decls⟩
  · exact ⟨_, _, rfl, type_does free leak order⟩
  · exact ⟨_, _, rfl, generate_does (fun _ => free _) (fun _ _ => free _) decls⟩

def decides (answers : StandardChecks.Answers) (enabled : OrderedSet Feature)
    (check : DeferredCheck) : Action (OrderedSet Feature) (Except CheckFailure Unit) :=
  match answers check with
  | some result => .done result
  | none => StandardChecks.handle enabled check

theorem answering_decides (answers : StandardChecks.Answers) (enabled : OrderedSet Feature)
    (check : DeferredCheck) : StandardChecks.answering answers enabled check =
      (decides answers enabled check).bind fun result => .done (result, enabled) := by
  unfold StandardChecks.answering decides
  cases answers check <;> rfl

section
variable (remembers : ∀ feature, allowed (.change (.rememberFeature feature)))
  (reports : ∀ severity position message, allowed (.change (.report severity position message)))
include remembers reports

theorem decides_does (answers : StandardChecks.Answers) (enabled : OrderedSet Feature)
    (check : DeferredCheck) : (decides answers enabled check).Does allowed := by
  unfold decides
  cases answers check with
  | none => exact handle_does remembers reports enabled check
  | some result => exact True.intro

theorem answering_does (answers : StandardChecks.Answers) :
    (StandardChecks.answering answers).Does allowed := by
  intro enabled check
  rw [answering_decides]
  exact bind_does (decides_does remembers reports answers enabled check) fun _ => True.intro

theorem runnerOf_does (hosted : Bool) : (runnerOf hosted).Does allowed := by
  rw [runnerOf_answers]
  exact answering_does remembers reports (answersOf hosted)

end

-- What becomes of a source depends on nothing but the source, the table and the settings.
theorem pipeline_aloof (hosted leak : Bool) (decls : DeclTable)
    (order : List DeclId → List DeclId) (enabled : OrderedSet Feature) :
    (pipeline (runnerOf hosted) decls leak order).Aloof (· = enabled) := by
  have runner := runnerOf_answers hosted
  have aside : (runnerOf hosted).Does Deed.Aside :=
    runnerOf_does (fun _ => change_aside _) (fun _ _ _ => change_aside _) hosted
  refine ⟨fun check => ?_, ?_⟩
  · have call : (fun state => runnerOf hosted state check) = fun state =>
        (decides (answersOf hosted) state check).bind fun result => .done (result, state) := by
      funext state
      rw [runner, answering_decides]
    change Aloof _ _ fun state => runnerOf hosted state check
    rw [call]
    exact aside_aloof aside
      (decides_does (fun _ => change_aside _) (fun _ _ _ => change_aside _) _ enabled check)
  · intro p known
    obtain ⟨phase, work, rfl, does⟩ := phases_do change_aside decls leak order p known
    exact aside_aloof aside does

end Statement

end UnitPipeline
