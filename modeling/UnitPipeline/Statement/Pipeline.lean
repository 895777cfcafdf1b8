import UnitPipeline.Check.Standard
import UnitPipeline.Run.Driver
import UnitPipeline.Statement.Declare

namespace UnitPipeline

namespace Statement
variable {σ : Type}

def topLevel (u : CompilationUnit) : List (NodeId × Node) :=
  match u.body with
  | none => []
  | some root =>
    (u.trees.children root).filterMap fun id => (u.trees.get? id).map fun node => (id, node)

def noteXml (span : Span) : Statement → Action σ Unit
  | xml => .look fun _ u => .change (.noteXml (u.position span.start)) fun _ => .done ()
  | _ => .done ()

def parseLines : List SourceLine → Action σ (Except PhaseError (List NodeId))
  | [] => .done (.ok [])
  | line :: rest =>
    if line.text.isEmpty then parseLines rest
    else
      match ofText? line.text with
      | none => .done (.error ⟨"cannot parse `" ++ String.ofList line.text ++ "`"⟩)
      | some statement =>
        (noteXml line.span statement).bind fun _ =>
          .change (.alloc ⟨statement.kind, line.span, []⟩) fun id =>
            (parseLines rest).bind fun result => .done (result.map (id :: ·))

def parse : Action σ (Except PhaseError Unit) :=
  .look fun _ u =>
    (parseLines (SourceLine.all u.source.chars)).bind fun
      | .error e => .done (.error e)
      | .ok children =>
        .change (.alloc ⟨.block, ⟨0, .ofNat u.source.length⟩, children⟩) fun root =>
          .change (.setBody root) fun _ => .done (.ok ())

def nameOne (decls : DeclTable) (entry : NodeId × Node) : Action σ Unit :=
  let define (name : String) : Action σ Unit :=
    match decls.named? name with
    | some decl => .change (.registerDefinition decl.id) fun _ => .done ()
    | none => .done ()
  match entry.2.kind with
  | .defDef name => define name
  | .classDef name =>
    (define name).bind fun _ =>
      match decls.named? (applyName name) with
      | some decl =>
        .change (.alloc ⟨.synthetic (applyName name), entry.2.span, []⟩) fun tree =>
          .change (.stage decl.id tree) fun _ => .done ()
      | none => .done ()
  | .ident name =>
    match decls.named? name with
    | some target => .change (.registerDependency target) fun _ => .done ()
    | none =>
      .look fun _ u =>
        .change (.report .error (u.nodePosition entry.1) ("not found: " ++ name)) fun _ =>
          .done ()
  | _ => .done ()

def name (decls : DeclTable) : Action σ (Except PhaseError Unit) :=
  .look fun _ u =>
    (Action.forAll (nameOne decls) (topLevel u)).bind fun _ => .done (.ok ())

def rehome (root : NodeId) (decl : DeclId) : Action σ Unit :=
  .change (.unstage decl) fun
    | none => .done ()
    | some tree =>
      .change (.editNode root fun node => { node with children := node.children ++ [tree] })
        fun _ => .change (.memoize tree tree) fun _ => .done ()

def queueFeature (entry : NodeId × Node) : Action σ Unit :=
  match entry.2.kind with
  | .importPath path =>
    match pathFeature? path with
    | some used =>
      .look fun _ u =>
        .change (.queueCheck .postUnit (.featureEnabled ⟨used⟩ (u.nodePosition entry.1)))
          fun _ => .done ()
    | none => .done ()
  | _ => .done ()

def checkOne (entry : NodeId × Node) : Action σ Unit :=
  .look fun _ u =>
    if u.targets entry.2.span then
      (queueFeature entry).bind fun _ => .change (.memoize entry.1 entry.1) fun _ => .done ()
    else .done ()

-- With `leak` the staged definitions stay where they are. `order` says in which
-- order the keys of the staged definitions come.
def type (leak : Bool) (order : List DeclId → List DeclId) : Action σ (Except PhaseError Unit) :=
  .look fun _ u =>
    match u.body with
    | none => .done (.ok ())
    | some root =>
      .change (.queueCheck .postTyper .syntheticsDrained) fun _ =>
        (Action.forAll (rehome root) (if leak then [] else order u.synthetics.keys)).bind fun _ =>
            .look fun _ v =>
              (Action.forAll checkOne (topLevel v)).bind fun _ =>
                .change (.memoize root root) fun _ => .done (.ok ())

def assertCode : String := "assert"

def generateOne (decls : DeclTable) (entry : NodeId × Node) : Action σ Unit :=
  match entry.2.kind with
  | .literal claim =>
    .change (.queueCheck .postUnit (.validate assertCode (some entry.1) claim)) fun _ => .done ()
  | kind =>
    match kind.definedName? with
    | some name =>
      let decl := (decls.named? name).map (·.id)
      .change (.addArtifact ⟨name, decl, name.toUTF8.data.toList⟩) fun _ => .done ()
    | none => .done ()

def generate (decls : DeclTable) : Action σ (Except PhaseError Unit) :=
  .look fun _ u =>
    match u.body with
    | none => .done (.ok ())
    | some root =>
      (Action.forAll (generateOne decls) (topLevel u)).bind fun _ =>
        .change (.queueCheck .postUnit (.computed root)) fun _ => .done (.ok ())

def stateless (phase : Phase) (work : Action σ (Except PhaseError Unit)) : CompilerPhase σ :=
  ⟨phase, fun state => work.bind fun result => .done (result, state)⟩

def phases (decls : DeclTable) (leak : Bool) (order : List DeclId → List DeclId) :
    List (CompilerPhase σ) :=
  [stateless .parser parse, stateless .namer (name decls), stateless .typer (type leak order),
    stateless .backend (generate decls)]

def hostRunner : Runner (OrderedSet Feature) := fun enabled check =>
  let builtIn := StandardChecks.runner enabled check
  match check with
  | .validate code _ claim =>
    if code = assertCode then
      if claim = "true" then .done (.ok (), enabled)
      else .done (.error (.failed code ("`" ++ claim ++ "` does not hold")), enabled)
    else builtIn
  | _ => builtIn

def pipeline (runner : Runner σ) (decls : DeclTable) (leak : Bool)
    (order : List DeclId → List DeclId) : Driver σ :=
  ⟨phases decls leak order, runner⟩

end Statement

end UnitPipeline
