namespace UnitPipeline.Path

def components (path : String) : List String :=
  (path.splitOn "/").filter fun part => part ≠ "" && part ≠ "."

def fileName? (path : String) : Option String :=
  match (components path).getLast? with
  | some ".." => none
  | found => found

def splitLastDot (name : List Char) : Option (List Char × List Char) :=
  match name with
  | [] => none
  | c :: rest =>
    match splitLastDot rest with
    | some (stem, ending) => some (c :: stem, ending)
    | none => if c = '.' then some ([], rest) else none

-- The ending after the last dot of the file name. A name whose only dot comes
-- first has no ending.
def extension? (path : String) : Option String :=
  (fileName? path).bind fun name =>
    match splitLastDot name.toList with
    | some (_ :: _, ending) => some (String.ofList ending)
    | _ => none

end UnitPipeline.Path
