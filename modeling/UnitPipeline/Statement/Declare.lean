import UnitPipeline.Declaration
import UnitPipeline.Statement.Grammar

namespace UnitPipeline

namespace Statement

-- The names that one line introduces, read on its own: blanks on either side do
-- not count, and what is no definition introduces nothing.
def introduced (line : List Char) : List (String × DeclKind) :=
  match Text.splitOnce ' ' (Text.trim line) with
  | some (word, argument) =>
    let name := String.ofList argument
    if word = "def".toList then [(name, .method)]
    else if word = "case".toList then [(name, .classType), (applyName name, .method)]
    else []
  | none => []

def introducedBy (content : List Char) : List (String × DeclKind) :=
  (Text.lines content).flatMap introduced

end Statement

def DeclTable.declareAll (source : SourceFile) :
    List (String × DeclKind) → DeclTable → Except DeclError DeclTable
  | [], table => .ok table
  | (name, kind) :: rest, table =>
    match table.declare name kind source with
    | .error e => .error e
    | .ok (_, next) => DeclTable.declareAll source rest next

def DeclTable.ofSources (table : DeclTable) : List SourceFile → Except DeclError DeclTable
  | [] => .ok table
  | source :: rest =>
    match DeclTable.declareAll source (Statement.introducedBy source.chars) table with
    | .error e => .error e
    | .ok next => next.ofSources rest

end UnitPipeline
