import UnitPipeline.Proofs.Source.Position
import UnitPipeline.Statement.Declare

namespace UnitPipeline

namespace Statement

theorem ofWords_render {word argument : String} {statement : Statement}
    (read : ofWords word argument = some statement) :
    statement.render.toList = word.toList ++ ' ' :: argument.toList := by
  unfold ofWords at read
  -- One case for each keyword, and one for any other word.
  repeat' split at read
  all_goals cases read
  all_goals simp_all [render]

theorem ofText?_render (statement : Statement) :
    ofText? statement.render.toList = some statement := by
  cases statement with
  | xml => rfl
  | _ => simp [render, ofText?, Text.splitOnce, ofWords]

theorem ofText?_exact {text : List Char} {statement : Statement} :
    ofText? text = some statement ↔ text = statement.render.toList := by
  constructor
  · intro read
    unfold ofText? at read
    split at read
    · rename_i same
      cases read
      exact same
    · obtain ⟨parts, cut, words⟩ := Option.bind_eq_some_iff.mp read
      obtain ⟨rfl, _⟩ := Text.splitOnce_exact.mp cut
      rw [ofWords_render words]
      simp
  · rintro rfl
    exact ofText?_render statement

def keywords : List String := ["def", "case", "use", "feature", "assert"]

def isStatement (text : List Char) : Bool :=
  text = "<xml/>".toList || keywords.any fun word => (word ++ " ").toList.isPrefixOf text

theorem render_isStatement (statement : Statement) :
    isStatement statement.render.toList = true := by
  cases statement with
  | xml => rfl
  | _ => simp [isStatement, keywords, render]

theorem isStatement_render {text : List Char} (begins : isStatement text = true) :
    ∃ statement : Statement, text = statement.render.toList := by
  simp only [isStatement, keywords, Bool.or_eq_true, decide_eq_true_eq, List.any_eq_true] at begins
  obtain rfl | ⟨word, known, lead⟩ := begins
  · exact ⟨.xml, rfl⟩
  · obtain ⟨rest, rfl⟩ := List.isPrefixOf_iff_prefix.mp lead
    simp only [List.mem_cons, List.not_mem_nil, or_false] at known
    rcases known with rfl | rfl | rfl | rfl | rfl
    · exact ⟨.define (.ofList rest), by simp [render]⟩
    · exact ⟨.caseOf (.ofList rest), by simp [render]⟩
    · exact ⟨.use (.ofList rest), by simp [render]⟩
    · exact ⟨.feature (.ofList rest), by simp [render]⟩
    · exact ⟨.assert (.ofList rest), by simp [render]⟩

theorem ofText?_isSome (text : List Char) : (ofText? text).isSome = isStatement text := by
  rw [Bool.eq_iff_iff, Option.isSome_iff_exists]
  constructor
  · rintro ⟨statement, read⟩
    rw [ofText?_exact.mp read]
    exact render_isStatement statement
  · intro begins
    obtain ⟨statement, rfl⟩ := isStatement_render begins
    exact ⟨statement, ofText?_render statement⟩

theorem pathFeature?_featurePath (name : String) : pathFeature? (featurePath name) = some name := by
  simp [pathFeature?, featurePath]

theorem render_solid (statement : Statement) :
    ∃ c rest, statement.render.toList = c :: rest ∧ Text.isBlank c = false := by
  cases statement <;> exact ⟨_, _, by simp only [render, String.toList_append]; rfl, by decide⟩

theorem render_long (statement : Statement) : 4 ≤ Text.size statement.render.toList := by
  refine Nat.le_trans ?_ (Text.length_le_size _)
  cases statement <;> simp [render]

def introduces : Statement → List (String × DeclKind)
  | define name => [(name, .method)]
  | caseOf name => [(name, .classType), (applyName name, .method)]
  | _ => []

def caseName? : Statement → Option String
  | caseOf name => some name
  | _ => none

def featureName? : Statement → Option String
  | feature name => some name
  | _ => none

def claim? : Statement → Option String
  | assert claim => some claim
  | _ => none

theorem introduced_read {piece : List Char} {statement : Statement}
    (read : ofText? (Text.trimEnd piece) = some statement) :
    introduced (Text.unterminated piece) = statement.introduces := by
  obtain ⟨c, rest, begins, solid⟩ := statement.render_solid
  have kept := (Text.trimEnd_unterminated piece).trans (ofText?_exact.mp read)
  have trimmed := (Text.trim_solid (kept.trans begins) solid).trans kept
  unfold introduced
  rw [trimmed]
  cases statement with
  | xml => rfl
  | _ => simp [render, Text.splitOnce, introduces]

theorem introduced_blank {piece : List Char} (empty : Text.trimEnd piece = []) :
    introduced (Text.unterminated piece) = [] := by
  have blank := (Text.trimEnd_unterminated piece).trans empty
  unfold introduced
  rw [Text.trim_blank blank]
  rfl

end Statement

structure Placed where
  line : Nat
  offset : Nat
  statement : Statement
  deriving DecidableEq, Repr

def Placed.position (p : Placed) : Position := ⟨.ofNat p.offset, .ofNat p.line, 1⟩

def Placed.span (p : Placed) : Span :=
  ⟨.ofNat p.offset, .ofNat (p.offset + Text.size p.statement.render.toList)⟩

-- The statements on lines of which the first has a number and an offset. A line that
-- is no statement is passed over.
def placedFrom (line offset : Nat) : List (List Char) → List Placed
  | [] => []
  | piece :: rest =>
    let later := placedFrom (line + 1) (offset + Text.size piece) rest
    match Statement.ofText? (Text.trimEnd piece) with
    | some statement => ⟨line, offset, statement⟩ :: later
    | none => later

def unreadableIn (lines : List (List Char)) : Option (List Char) :=
  (lines.map Text.trimEnd).find? fun text => !text.isEmpty && !Statement.isStatement text

namespace SourceFile

def statements (source : SourceFile) : List Placed := placedFrom 1 0 (Text.pieces source.chars)

def unreadable? (source : SourceFile) : Option (List Char) :=
  unreadableIn (Text.pieces source.chars)

def cases (source : SourceFile) : List String :=
  source.statements.filterMap (·.statement.caseName?)

def claims (source : SourceFile) : List String :=
  source.statements.filterMap (·.statement.claim?)

def introduces (source : SourceFile) : List (String × DeclKind) :=
  source.statements.flatMap (·.statement.introduces)

end SourceFile

theorem unreadableIn_cons {piece : List Char} {rest : List (List Char)}
    (readable : unreadableIn (piece :: rest) = none) :
    (Text.trimEnd piece = [] ∨
        ∃ statement, Statement.ofText? (Text.trimEnd piece) = some statement) ∧
      unreadableIn rest = none := by
  obtain ⟨here, others⟩ := List.forall_mem_cons.mp (List.find?_eq_none.mp readable)
  refine ⟨?_, List.find?_eq_none.mpr others⟩
  cases read : Statement.ofText? (Text.trimEnd piece) with
  | some statement => exact Or.inr ⟨statement, rfl⟩
  | none =>
    have odd : Statement.isStatement (Text.trimEnd piece) = false := by
      rw [← Statement.ofText?_isSome, read]
      rfl
    simpa [odd] using here

-- On lines that can be read, what is declared line by line is what the statements
-- introduce, although one reader takes off the blanks on both sides.
theorem placed_introduces {pieces : List (List Char)} (readable : unreadableIn pieces = none)
    (line offset : Nat) : (pieces.map Text.unterminated).flatMap Statement.introduced =
      (placedFrom line offset pieces).flatMap fun p => p.statement.introduces := by
  induction pieces generalizing line offset with
  | nil => rfl
  | cons piece rest ih =>
    obtain ⟨here, others⟩ := unreadableIn_cons readable
    have later := ih others (line + 1) (offset + Text.size piece)
    rw [List.map_cons, List.flatMap_cons, placedFrom, later]
    obtain empty | ⟨statement, read⟩ := here
    · rw [Statement.introduced_blank empty, empty]
      rfl
    · rw [Statement.introduced_read read, read, List.flatMap_cons]

theorem SourceFile.introducedBy_eq {source : SourceFile} (readable : source.unreadable? = none) :
    Statement.introducedBy source.chars = source.introduces := placed_introduces readable 1 0

theorem Statement.introduces_length (statement : Statement) :
    statement.introduces.length ≤ 1 + statement.caseName?.toList.length := by
  cases statement <;> simp [introduces, caseName?]

theorem introduces_length (placed : List Placed) :
    (placed.flatMap (·.statement.introduces)).length ≤
      placed.length + (placed.filterMap (·.statement.caseName?)).length := by
  induction placed with
  | nil => exact Nat.le_refl 0
  | cons p rest ih =>
    have here := p.statement.introduces_length
    rw [List.flatMap_cons, List.length_append, List.length_cons]
    cases named : p.statement.caseName? with
    | none =>
      rw [List.filterMap_cons_none (f := fun p : Placed => p.statement.caseName?) named]
      simp only [named, Option.toList_none, List.length_nil] at here
      omega
    | some name =>
      rw [List.filterMap_cons_some (f := fun p : Placed => p.statement.caseName?) named,
        List.length_cons]
      simp only [named, Option.toList_some, List.length_singleton] at here
      omega

theorem placed_size (line offset : Nat) (pieces : List (List Char)) :
    4 * (placedFrom line offset pieces).length ≤ Text.size pieces.flatten := by
  induction pieces generalizing line offset with
  | nil => exact Nat.zero_le _
  | cons piece rest ih =>
    have later := ih (line + 1) (offset + Text.size piece)
    rw [List.flatten_cons, Text.size_append, placedFrom]
    cases read : Statement.ofText? (Text.trimEnd piece) with
    | none => exact Nat.le_trans later (Nat.le_add_left ..)
    | some statement =>
      have long := statement.render_long
      have narrow := Text.size_trimEnd piece
      rw [Statement.ofText?_exact.mp read] at narrow
      rw [List.length_cons]
      omega

theorem SourceFile.statements_size (source : SourceFile) :
    4 * source.statements.length ≤ source.length := by
  have bound := placed_size 1 0 (Text.pieces source.chars)
  rwa [Text.pieces_flatten] at bound

-- Where a statement stands: at the start of a line, with all lines before it.
structure StandsAt (text : List Char) (p : Placed) (before piece after : List Char) : Prop where
  parts : text = before ++ (piece ++ after)
  lines : before.count '\n' + 1 = p.line
  bytes : Text.size before = p.offset
  starts : Text.EndsLine before
  reads : Text.trimEnd piece = p.statement.render.toList

theorem placed_stands {text before rest : List Char} {p : Placed} (parts : text = before ++ rest)
    (starts : Text.EndsLine before) (inside : p ∈ placedFrom (before.count '\n' + 1)
      (Text.size before) (Text.pieces rest)) :
    ∃ before piece after, StandsAt text p before piece after := by
  generalize cut : Text.pieces rest = pieces at inside
  induction pieces generalizing before rest with
  | nil => cases inside
  | cons piece more ih =>
    obtain ⟨after, rfl, same, ends⟩ := Text.pieces_cons cut
    -- The statement is on this line, or this line ends before it.
    have onwards : p ∈ placedFrom (before.count '\n' + 1 + 1) (Text.size before + Text.size piece)
        more → ∃ before piece after, StandsAt text p before piece after := by
      intro later
      obtain rfl | ⟨body, rfl, absent⟩ := ends
      · rw [← same] at later
        cases later
      · have closed : Text.EndsLine (before ++ (body ++ ['\n'])) :=
          Or.inr ⟨before ++ body, (List.append_assoc ..).symm⟩
        have split : text = (before ++ (body ++ ['\n'])) ++ after := by
          rw [parts, List.append_assoc before]
        refine ih split closed same ?_
        simpa [Text.size_append, List.count_eq_zero.mpr absent] using later
    rw [placedFrom] at inside
    cases read : Statement.ofText? (Text.trimEnd piece) with
    | none =>
      simp only [read] at inside
      exact onwards inside
    | some statement =>
      simp only [read] at inside
      rcases List.mem_cons.mp inside with rfl | later
      · exact ⟨before, piece, after, parts, rfl, rfl, starts, Statement.ofText?_exact.mp read⟩
      · exact onwards later

theorem SourceFile.statement_stands {source : SourceFile} (inside : p ∈ source.statements) :
    ∃ before piece after, StandsAt source.chars p before piece after :=
  placed_stands rfl (Or.inl rfl) inside

theorem StandsAt.offset_le (stands : StandsAt text p before piece after) :
    p.offset ≤ Text.size text := by
  rw [stands.parts, Text.size_append, ← stands.bytes]
  exact Nat.le_add_right ..

theorem StandsAt.line_le (stands : StandsAt text p before piece after) :
    p.line ≤ Text.size text + 1 := by
  have counted := List.count_le_length (a := '\n') (l := before)
  have wide := Text.length_le_size before
  have whole := congrArg Text.size stands.parts
  rw [Text.size_append] at whole
  have := stands.lines
  omega

theorem SourceFile.position_statement {source : SourceFile} (present : source.isPresent = true)
    (small : source.length < UInt64.size) (inside : p ∈ source.statements) :
    source.position (.ofNat p.offset) = p.position := by
  obtain ⟨before, piece, after, stands⟩ := source.statement_stands inside
  have fits : p.offset < UInt64.size := Nat.lt_of_le_of_lt stands.offset_le small
  have word : (UInt64.ofNat p.offset).toNat = p.offset := UInt64.toNat_ofNat_of_lt' fits
  have place := Text.lookUp_start stands.starts (piece ++ after)
  rw [← stands.parts, stands.bytes, stands.lines, ← word] at place
  rw [position, position?_found present place, Option.getD_some, word]
  rfl

theorem SourceFile.statement_position {source : SourceFile} (small : source.length < UInt64.size)
    (inside : p ∈ source.statements) : source.position (.ofNat p.offset) = p.position := by
  cases source with
  | absent => cases inside
  | persistent _ _ => exact position_statement rfl small inside
  | inMemory _ _ => exact position_statement rfl small inside

theorem SourceFile.statement_number {source : SourceFile} (small : source.length < UInt32.size - 1)
    (inside : p ∈ source.statements) : p.position.line.toNat = p.line := by
  obtain ⟨_, _, _, stands⟩ := source.statement_stands inside
  have last : p.line ≤ source.length + 1 := stands.line_le
  exact UInt32.toNat_ofNat_of_lt' (by omega)

end UnitPipeline
