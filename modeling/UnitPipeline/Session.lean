namespace UnitPipeline

structure Settings where
  trackDependencies : Bool := false
  freshNameGuard : Bool := true
  stackDumpDepth : UInt64 := 8
  deriving DecidableEq, Repr

inductive Phase
  | init
  | parser
  | namer
  | typer
  | backend
  | terminal
  deriving DecidableEq, Repr

namespace Phase

def all : List Phase := [init, parser, namer, typer, backend, terminal]

def rank : Phase → Nat
  | init => 0
  | parser => 1
  | namer => 2
  | typer => 3
  | backend => 4
  | terminal => 5

def name : Phase → String
  | init => "init"
  | parser => "parser"
  | namer => "namer"
  | typer => "typer"
  | backend => "backend"
  | terminal => "terminal"

theorem mem_all (p : Phase) : p ∈ all := by cases p <;> decide

end Phase

-- The state that all units of a run share. Of the settings only the tracking flag may
-- change.
structure Session where
  trackDependencies : Bool := Settings.trackDependencies {}
  freshNameGuard : Bool := Settings.freshNameGuard {}
  stackDumpDepth : UInt64 := Settings.stackDumpDepth {}
  phase : Phase := .init
  deriving DecidableEq, Repr

namespace Session

def ofSettings (settings : Settings) : Session where
  trackDependencies := settings.trackDependencies
  freshNameGuard := settings.freshNameGuard
  stackDumpDepth := settings.stackDumpDepth
  phase := .init

def settings (s : Session) : Settings where
  trackDependencies := s.trackDependencies
  freshNameGuard := s.freshNameGuard
  stackDumpDepth := s.stackDumpDepth

@[simp] theorem settings_ofSettings (settings : Settings) :
    (ofSettings settings).settings = settings := rfl

def global : Session := ofSettings {}

def enterPhase (s : Session) (phase : Phase) : Session := { s with phase }

def setTracking (s : Session) (on : Bool) : Session := { s with trackDependencies := on }

def tracksDependencies (s : Session) : Bool := s.trackDependencies

def guardsFreshNames (s : Session) : Bool := s.freshNameGuard && s.phase = .typer

theorem enterPhase_eq_iff {s t : Session} {phase : Phase} :
    s.enterPhase phase = t.enterPhase phase ↔ s.settings = t.settings := by
  cases s
  cases t
  simp [enterPhase, settings]

end Session

end UnitPipeline
