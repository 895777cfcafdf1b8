import UnitPipeline.Check.Drain
import UnitPipeline.Source.FileTree

namespace UnitPipeline

structure PhaseError where
  message : String
  deriving DecidableEq, Repr

-- One stage of a pipeline. `phase` is the same in every call, although a run asks for it
-- when it sorts the phases, at each round and for each unit. What a stage remembers from
-- unit to unit is part of the state that the phases and the check runner of a driver
-- share.
structure CompilerPhase (σ : Type) where
  phase : Phase
  run : σ → Action σ (Except PhaseError Unit × σ)

inductive DriverError
  | missingBody (unit : String)
  | phase (phase : Phase) (unit : String) (cause : PhaseError)
  | unit (error : UnitError)
  | source (error : SourceError)
  deriving DecidableEq, Repr

namespace DriverError

def message : DriverError → String
  | missingBody name => name ++ ": parser produced no tree"
  | phase kind name cause => name ++ ": " ++ kind.name ++ " failed: " ++ cause.message
  | unit error => error.message
  | source error => error.message

def cause? : DriverError → Option String
  | missingBody _ => none
  | phase _ _ cause => some cause.message
  | unit (.checkFailed _ failure) => some failure.message
  | source error => some error.fault.cause

end DriverError

structure Seat where
  slot : Nat
  unit : CompilationUnit
  deriving DecidableEq, Repr

structure UnitFailure where
  slot : Nat
  unit : String
  phase : Phase
  error : DriverError
  deriving DecidableEq, Repr

structure RunReport where
  survivors : List Seat := []
  failures : List UnitFailure := []
  deriving DecidableEq, Repr

namespace RunReport

def units (r : RunReport) : List CompilationUnit := r.survivors.map (·.unit)

def succeeded (r : RunReport) : Bool := r.failures.isEmpty

def unit? (r : RunReport) (path : String) : Option CompilationUnit :=
  r.units.find? fun u => u.display = path

end RunReport

-- What happens in a run, in order. A visit is a phase taking up a unit: `stage`
-- is the place of the phase in the order of execution, and `during` the active
-- phase of the session. A unit that is dropped once all phases are done was in
-- no phase.
inductive RunEvent
  | entering (phase : Phase) (units : Nat)
  | visit (slot stage : Nat) (phase during : Phase)
  | closing (slot : Nat) (during : Phase)
  | within (slot : Nat) (event : UnitEvent)
  | phaseDone (slot : Nat) (unit : String) (phase : Phase)
  | dropped (slot : Nat) (unit : String) (phase : Option Phase) (error : DriverError)
  | finished (units failures : Nat)
  deriving DecidableEq, Repr

def RunEvent.logged : RunEvent → Option LogEntry
  | entering phase units =>
    some ⟨.info, "entering phase", [("phase", phase.name), ("units", toString units)]⟩
  | visit .. | closing .. => none
  | within _ event => event.logged
  | phaseDone _ unit phase => some ⟨.debug, "phase done", [("unit", unit), ("phase", phase.name)]⟩
  | dropped _ unit none error =>
    some ⟨.warn, "unit dropped", [("unit", unit), ("error", error.message)]⟩
  | dropped _ unit (some phase) error =>
    some ⟨.warn, "unit dropped",
      [("unit", unit), ("phase", phase.name), ("error", error.message)]⟩
  | finished units failures =>
    some ⟨.info, "run finished", [("units", toString units), ("failures", toString failures)]⟩

structure Driver (σ : Type) where
  phases : List (CompilerPhase σ) := []
  runner : Runner σ

structure Shared (σ : Type) where
  session : Session
  state : σ

structure Advance (σ : Type) where
  result : Except DriverError Unit
  unit : CompilationUnit
  shared : Shared σ
  events : List UnitEvent

structure RunResult (σ : Type) where
  report : RunReport
  shared : Shared σ
  events : List RunEvent

namespace Driver
variable {σ : Type}

def addPhase (d : Driver σ) (phase : CompilerPhase σ) : Driver σ :=
  { d with phases := d.phases ++ [phase] }

def ordered (d : Driver σ) : List (CompilerPhase σ) :=
  Phase.all.flatMap fun kind => d.phases.filter fun p => p.phase = kind

def drainUnit (d : Driver σ) (limit : Nat) (point : CheckPoint) (shared : Shared σ)
    (unit : CompilationUnit) : Option (Advance σ) :=
  (drain d.runner limit point shared.state ⟨shared.session, unit⟩).map fun out =>
    let result := match out.value.1 with
      | .ok _ => .ok ()
      | .error e => .error (.unit e)
    ⟨result, out.desk.unit, ⟨out.desk.session, out.value.2⟩, out.events⟩

def Advance.andThen (first : Advance σ)
    (next : Shared σ → CompilationUnit → Option (Advance σ)) : Option (Advance σ) :=
  match first.result with
  | .error _ => some first
  | .ok () => (next first.shared first.unit).map fun last =>
      { last with events := first.events ++ last.events }

def advance (d : Driver σ) (limit : Nat) (p : CompilerPhase σ) (shared : Shared σ)
    (unit : CompilationUnit) : Option (Advance σ) :=
  ((p.run shared.state).run (drain d.runner limit) ⟨shared.session, unit⟩).bind fun out =>
    let after : Advance σ := ⟨.ok (), out.desk.unit, ⟨out.desk.session, out.value.2⟩, out.events⟩
    match out.value.1 with
    | .error cause =>
      some { after with result := .error (.phase p.phase out.desk.unit.display cause) }
    | .ok () =>
      if p.phase = .parser && out.desk.unit.isPresent && out.desk.unit.body.isNone then
        some { after with result := .error (.missingBody out.desk.unit.display) }
      else if p.phase = .typer then Advance.andThen after (d.drainUnit limit .postTyper)
      else some after

-- Drains what is left once every phase is done. Checks for the typer that still
-- wait belong to a pipeline without a typer; they run before the others.
def finish (d : Driver σ) (limit : Nat) (shared : Shared σ) (unit : CompilationUnit) :
    Option (Advance σ) :=
  (d.drainUnit limit .postTyper shared unit).bind fun first =>
    Advance.andThen first (d.drainUnit limit .postUnit)

structure Sweep (σ : Type) where
  live : List Seat
  failures : List UnitFailure
  shared : Shared σ
  events : List RunEvent

-- `opening` and `closing` are what the history notes before and after a unit.
-- The last sweep belongs to no phase, and its failures count as terminal.
def sweep (phase : Option Phase) (step : Shared σ → CompilationUnit → Option (Advance σ))
    (opening : Shared σ → Seat → RunEvent) (closing : Seat → List RunEvent) :
    List Seat → Shared σ → Option (Sweep σ)
  | [], shared => some ⟨[], [], shared, []⟩
  | seat :: rest, shared =>
    (step shared seat.unit).bind fun one =>
      (sweep phase step opening closing rest one.shared).map fun others =>
        let seen := opening shared seat :: one.events.map (.within seat.slot)
        let after : Seat := ⟨seat.slot, one.unit⟩
        match one.result with
        | .ok () =>
          { others with
            live := after :: others.live
            events := seen ++ closing after ++ others.events }
        | .error error =>
          let display := one.unit.display
          { others with
            failures := ⟨seat.slot, display, phase.getD .terminal, error⟩ :: others.failures
            events := seen ++ .dropped seat.slot display phase error :: others.events }

def runPhases (d : Driver σ) (limit : Nat) :
    Nat → List (CompilerPhase σ) → List Seat → Shared σ → Option (Sweep σ)
  | _, [], live, shared => some ⟨live, [], shared, []⟩
  | stage, p :: later, live, shared =>
    let entered := { shared with session := shared.session.enterPhase p.phase }
    (sweep (some p.phase) (d.advance limit p)
        (fun now seat => .visit seat.slot stage p.phase now.session.phase)
        (fun seat => [.phaseDone seat.slot seat.unit.display p.phase]) live entered).bind fun here =>
      (d.runPhases limit (stage + 1) later here.live here.shared).map fun rest =>
        { rest with
          failures := here.failures ++ rest.failures
          events := .entering p.phase live.length :: here.events ++ rest.events }

def seats (sources : List SourceFile) : List Seat :=
  sources.zipIdx.map fun entry => ⟨entry.2, .new entry.1⟩

def run (d : Driver σ) (limit : Nat) (shared : Shared σ) (sources : List SourceFile) :
    Option (RunResult σ) :=
  (d.runPhases limit 0 d.ordered (seats sources) shared).bind fun phases =>
    let ended := { phases.shared with session := phases.shared.session.enterPhase .terminal }
    (sweep none (d.finish limit) (fun now seat => .closing seat.slot now.session.phase)
        (fun _ => []) phases.live ended).map fun last =>
      let failures := phases.failures ++ last.failures
      ⟨⟨last.live, failures⟩, last.shared,
        phases.events ++ last.events ++ [.finished last.live.length failures.length]⟩

def readAll (disk : String → Except ReadFault String) : List String →
    Except SourceError (List SourceFile)
  | [] => .ok []
  | path :: rest =>
    match SourceFile.readFrom disk path with
    | .error e => .error e
    | .ok source =>
      match readAll disk rest with
      | .error e => .error e
      | .ok sources => .ok (source :: sources)

def runFiles (d : Driver σ) (limit : Nat) (shared : Shared σ)
    (disk : String → Except ReadFault String) (paths : List String) :
    Except DriverError (Option (RunResult σ)) :=
  match readAll disk paths with
  | .error e => .error (.source e)
  | .ok sources => .ok (d.run limit shared sources)

end Driver

end UnitPipeline
