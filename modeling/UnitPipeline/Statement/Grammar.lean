import UnitPipeline.Text.Blank
import UnitPipeline.Text.Boundary
import UnitPipeline.Text.Line
import UnitPipeline.Tree

namespace UnitPipeline

-- A small language with one statement a line. `define` and `caseOf` introduce
-- names, a case also the name of its generated `apply`.
inductive Statement
  | define (name : String)
  | caseOf (name : String)
  | use (name : String)
  | feature (name : String)
  | assert (claim : String)
  | xml
  deriving DecidableEq, Repr

namespace Statement

def applyName (name : String) : String := name ++ ".apply"

def featurePath (name : String) : String := "language." ++ name

def pathFeature? (path : String) : Option String :=
  let lead := "language.".toList
  if lead.isPrefixOf path.toList then some (String.ofList (path.toList.drop lead.length))
  else none

def kind : Statement → NodeKind
  | define name => .defDef name
  | caseOf name => .classDef name
  | use name => .ident name
  | feature name => .importPath (featurePath name)
  | assert claim => .literal claim
  | xml => .xmlLiteral

def ofWords (word argument : String) : Option Statement :=
  if word = "def" then some (define argument)
  else if word = "case" then some (caseOf argument)
  else if word = "use" then some (use argument)
  else if word = "feature" then some (feature argument)
  else if word = "assert" then some (assert argument)
  else none

def render : Statement → String
  | define name => "def " ++ name
  | caseOf name => "case " ++ name
  | use name => "use " ++ name
  | feature name => "feature " ++ name
  | assert claim => "assert " ++ claim
  | xml => "<xml/>"

def ofText? (text : List Char) : Option Statement :=
  if text = "<xml/>".toList then some xml
  else
    (Text.splitOnce ' ' text).bind fun parts =>
      ofWords (String.ofList parts.1) (String.ofList parts.2)

end Statement

structure SourceLine where
  text : List Char
  span : Span
  deriving DecidableEq, Repr

def SourceLine.startingAt (offset : Nat) : List (List Char) → List SourceLine
  | [] => []
  | piece :: rest =>
    let text := Text.trimEnd piece
    ⟨text, ⟨.ofNat offset, .ofNat (offset + Text.size text)⟩⟩ ::
      SourceLine.startingAt (offset + Text.size piece) rest

def SourceLine.all (content : List Char) : List SourceLine :=
  SourceLine.startingAt 0 (Text.pieces content)

end UnitPipeline
