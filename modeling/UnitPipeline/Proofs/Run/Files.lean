import UnitPipeline.Proofs.Run.Partition

namespace UnitPipeline
variable {σ : Type}

structure Standing (σ : Type) where
  shared : Shared σ
  events : List RunEvent

-- A call of a driver. Whatever it does to the session and the memory stays done when it
-- ends in an error.
abbrev Attempt (σ : Type) := ExceptT DriverError (StateT (Standing σ) Option)

namespace Driver

def openFile (disk : String → Except ReadFault String) (path : String) : Attempt σ SourceFile :=
  match SourceFile.readFrom disk path with
  | .ok source => pure source
  | .error e => throw (.source e)

def attempt (d : Driver σ) (limit : Nat) (sources : List SourceFile) : Attempt σ RunReport :=
  fun standing => (d.run limit standing.shared sources).map fun out =>
    (.ok out.report, ⟨out.shared, standing.events ++ out.events⟩)

def attemptFiles (d : Driver σ) (limit : Nat) (disk : String → Except ReadFault String)
    (paths : List String) : Attempt σ RunReport := do
  let sources ← paths.mapM (openFile disk)
  d.attempt limit sources

end Driver

variable {d : Driver σ} {limit : Nat} {disk : String → Except ReadFault String}
  {standing : Standing σ} {paths : List String}

section
variable {α β : Type} {first : Attempt σ α} {next : α → Attempt σ β} {after : Standing σ}

theorem run_stops {e : DriverError} (ran : first.run standing = some (.error e, after)) :
    (first >>= next).run standing = some (.error e, after) := by
  change (first.run standing).bind _ = _
  rw [ran]
  rfl

theorem run_goesOn {value : α} (ran : first.run standing = some (.ok value, after)) :
    (first >>= next).run standing = (next value).run after := by
  change (first.run standing).bind _ = _
  rw [ran]
  rfl

end

theorem openAll_run (disk : String → Except ReadFault String) (paths : List String)
    (standing : Standing σ) :
    (paths.mapM (Driver.openFile disk)).run standing =
      some ((Driver.readAll disk paths).mapError DriverError.source, standing) := by
  induction paths with
  | nil => rfl
  | cons path rest ih =>
    rw [List.mapM_cons, Driver.openFile, Driver.readAll]
    cases SourceFile.readFrom disk path with
    | error e => rfl
    | ok source =>
      rw [pure_bind]
      cases later : Driver.readAll disk rest with
      | error e =>
        rw [later] at ih
        exact run_stops ih
      | ok sources =>
        rw [later] at ih
        exact run_goesOn ih

theorem attemptFiles_run : (d.attemptFiles limit disk paths).run standing =
    match d.runFiles limit standing.shared disk paths with
    | .error e => some (.error e, standing)
    | .ok ran => ran.map fun out =>
      (.ok out.report, ⟨out.shared, standing.events ++ out.events⟩) := by
  have opened := openAll_run disk paths standing
  rw [Driver.attemptFiles, Driver.runFiles]
  cases found : Driver.readAll disk paths with
  | error e =>
    rw [found] at opened
    exact run_stops opened
  | ok sources =>
    rw [found] at opened
    exact run_goesOn opened

theorem readAll_cons_error {path : String} {fault : ReadFault} (refused : disk path = .error fault)
    (rest : List String) : Driver.readAll disk (path :: rest) = .error ⟨path, fault⟩ := by
  rw [Driver.readAll, SourceFile.readFrom, refused]

theorem readAll_cons_ok {path content : String} (found : disk path = .ok content)
    (rest : List String) : Driver.readAll disk (path :: rest) =
      (Driver.readAll disk rest).map (.persistent path content :: ·) := by
  rw [Driver.readAll, SourceFile.readFrom, found]
  cases Driver.readAll disk rest <;> rfl

theorem readAll_stops {before : List String} {path : String} {fault : ReadFault}
    (readable : ∀ p ∈ before, ∃ content, disk p = .ok content)
    (refused : disk path = .error fault) (after : List String) :
    Driver.readAll disk (before ++ path :: after) = .error ⟨path, fault⟩ := by
  induction before with
  | nil => exact readAll_cons_error refused after
  | cons first before ih =>
    obtain ⟨⟨content, found⟩, others⟩ := List.forall_mem_cons.mp readable
    rw [List.cons_append, readAll_cons_ok found, ih others]
    rfl

theorem readAll_reads {contents : List String} (found : paths.map disk = contents.map .ok) :
    Driver.readAll disk paths = .ok (List.zipWith .persistent paths contents) := by
  induction paths generalizing contents with
  | nil =>
    cases contents with
    | nil => rfl
    | cons content contents => cases found
  | cons path rest ih =>
    cases contents with
    | nil => cases found
    | cons content contents =>
      obtain ⟨here, others⟩ := List.cons.inj found
      rw [readAll_cons_ok here, ih others]
      rfl

theorem paths_cases (disk : String → Except ReadFault String) (paths : List String) :
    (∃ contents : List String, paths.map disk = contents.map .ok) ∨
      ∃ before path after fault, paths = before ++ path :: after ∧
        (∀ p ∈ before, ∃ content, disk p = .ok content) ∧ disk path = .error fault := by
  induction paths with
  | nil => exact Or.inl ⟨[], rfl⟩
  | cons path rest ih =>
    cases found : disk path with
    | error fault => exact Or.inr ⟨[], path, rest, fault, rfl, nofun, found⟩
    | ok content =>
      rcases ih with ⟨contents, all⟩ | ⟨before, stop, after, fault, rfl, readable, refused⟩
      · refine Or.inl ⟨content :: contents, ?_⟩
        rw [List.map_cons, List.map_cons, found, all]
      · refine Or.inr ⟨path :: before, stop, after, fault, rfl, ?_, refused⟩
        exact List.forall_mem_cons.mpr ⟨⟨content, found⟩, readable⟩

theorem run_seats {sources : List SourceFile} {shared : Shared σ} {out : RunResult σ}
    (ran : d.run limit shared sources = some out) :
    (out.report.survivors.map (·.slot) ++ out.report.failures.map (·.slot)).Perm
      (List.range sources.length) ∧ out.events ≠ [] := by
  obtain ⟨rounds, going, failures, events⟩ := run_rounds ran
  refine ⟨?_, ?_⟩
  · rw [failures, ← seats_slots]
    exact rounds_perm going
  · rw [events]
    exact List.append_ne_nil_of_right_ne_nil _ (List.cons_ne_nil _ _)

-- For every driver and every disk. Where a path cannot be read, the call leaves the session,
-- the memory and the history as they were; no run has begun then, for each leaves events.
theorem files_all_or_nothing (d : Driver σ) (limit : Nat) (disk : String → Except ReadFault String)
    (paths : List String) (standing : Standing σ) :
    ((∃ p ∈ paths, ∃ fault, disk p = .error fault) →
      ∃ before path after fault, paths = before ++ path :: after ∧
        (∀ p ∈ before, ∃ content, disk p = .ok content) ∧ disk path = .error fault ∧
        d.runFiles limit standing.shared disk paths = .error (.source ⟨path, fault⟩) ∧
        (d.attemptFiles limit disk paths).run standing =
          some (.error (.source ⟨path, fault⟩), standing)) ∧
      ((∀ p ∈ paths, ∃ content, disk p = .ok content) →
        ∃ contents sources, paths.map disk = contents.map .ok ∧
          sources = List.zipWith SourceFile.persistent paths contents ∧
          d.runFiles limit standing.shared disk paths = .ok (d.run limit standing.shared sources) ∧
          (d.attemptFiles limit disk paths).run standing = (d.attempt limit sources).run standing ∧
          ∀ out, d.run limit standing.shared sources = some out →
            (out.report.survivors.map (·.slot) ++ out.report.failures.map (·.slot)).Perm
              (List.range paths.length) ∧ out.events ≠ []) := by
  refine ⟨?_, ?_⟩
  · rintro ⟨p, inside, fault, refused⟩
    rcases paths_cases disk paths with ⟨contents, all⟩ | ⟨before, path, after, fault, rfl, stop⟩
    · have found : disk p ∈ contents.map .ok := all ▸ List.mem_map_of_mem inside
      obtain ⟨content, _, read⟩ := List.mem_map.mp found
      rw [refused] at read
      cases read
    · have ran : d.runFiles limit standing.shared disk (before ++ path :: after) =
          .error (.source ⟨path, fault⟩) := by
        rw [Driver.runFiles, readAll_stops stop.1 stop.2]
      refine ⟨before, path, after, fault, rfl, stop.1, stop.2, ran, ?_⟩
      rw [attemptFiles_run, ran]
  · intro readable
    rcases paths_cases disk paths with ⟨contents, all⟩ | ⟨before, path, after, fault, rfl, stop⟩
    · have ran : d.runFiles limit standing.shared disk paths =
          .ok (d.run limit standing.shared (List.zipWith .persistent paths contents)) := by
        rw [Driver.runFiles, readAll_reads all]
      have many := congrArg List.length all
      rw [List.length_map, List.length_map] at many
      refine ⟨contents, _, all, rfl, ran, ?_, fun out done => ?_⟩
      · rw [attemptFiles_run, ran]
        rfl
      · have seats := run_seats done
        rwa [List.length_zipWith, ← many, Nat.min_self] at seats
    · obtain ⟨content, found⟩ := readable path (by simp)
      rw [stop.2] at found
      cases found

def oneText (path : String) : Except ReadFault String :=
  if path = "A.scala" then .ok "a"
  else if path = "B.scala" then .error (.other "PermissionDenied" "Permission denied (os error 13)")
  else .error .notFound

theorem refusals_files :
    let standing : Standing Nat := ⟨⟨{ phase := .typer }, 0⟩, []⟩
    let denied : ReadFault := .other "PermissionDenied" "Permission denied (os error 13)"
    (refusals.attemptFiles 1 oneText ["A.scala", "B.scala", "C.scala"]).run standing =
        some (.error (.source ⟨"B.scala", denied⟩), standing) ∧
      ∃ out, refusals.runFiles 1 standing.shared oneText ["A.scala", "A.scala"] = .ok (some out) ∧
        out.report.survivors.map (·.slot) = [0] ∧ out.report.failures.map (·.slot) = [1] := by
  intro standing denied
  refine ⟨?_, ?_⟩
  · obtain ⟨stops, _⟩ :=
      files_all_or_nothing refusals 1 oneText ["A.scala", "B.scala", "C.scala"] standing
    obtain ⟨before, path, after, fault, _, _, _, ran, attempted⟩ :=
      stops ⟨"C.scala", by decide, .notFound, rfl⟩
    have known : refusals.runFiles 1 standing.shared oneText ["A.scala", "B.scala", "C.scala"] =
      .error (.source ⟨"B.scala", denied⟩) := rfl
    rw [attempted, Except.error.inj (ran.symm.trans known)]
  · obtain ⟨_, reads⟩ := files_all_or_nothing refusals 1 oneText ["A.scala", "A.scala"] standing
    obtain ⟨contents, sources, all, rfl, ran, _, seats⟩ := reads (by simp [oneText])
    have texts : contents = ["a", "a"] :=
      (List.map_inj_right fun _ _ => Except.ok.inj).mp all.symm
    have told : (refusals.run 1 standing.shared
          (List.zipWith .persistent ["A.scala", "A.scala"] contents)).map
        (fun out => (out.report.survivors.map (·.slot), out.report.failures.map (·.slot))) =
          some ([0], [1]) := by
      rw [texts]
      rfl
    obtain ⟨out, done, ends⟩ := Option.map_eq_some_iff.mp told
    obtain ⟨units, failures⟩ := Prod.mk.inj ends
    exact ⟨out, ran.trans (congrArg Except.ok done), units, failures⟩

end UnitPipeline
