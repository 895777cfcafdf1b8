import UnitPipeline.Proofs.Statement.Layout
import UnitPipeline.Proofs.Unit.Ends

namespace UnitPipeline
variable {σ : Type} {inner : Drain σ} {s : Session} {base : CompilationUnit}

def xmlPosition? (source : SourceFile) (placed : List Placed) : Option Position :=
  (placed.find? fun p => p.statement = .xml).map fun p => source.position (.ofNat p.offset)

theorem xmlPosition?_cons (source : SourceFile) (p : Placed) (rest : List Placed) :
    xmlPosition? source (p :: rest) =
      (if p.statement = .xml then some (source.position (.ofNat p.offset)) else none).or
        (xmlPosition? source rest) := by
  by_cases xml : p.statement = .xml <;> simp [xmlPosition?, xml]

def CompilationUnit.midway (base : CompilationUnit) (made : List Node) (xml : Option Position) :
    CompilationUnit := { base with trees := .of made, firstXml := xml }

theorem CompilationUnit.midway_alloc (base : CompilationUnit) (made : List Node)
    (xml : Option Position) (node : Node) :
    UnitOp.apply s (base.midway made xml) (.alloc node) = base.midway (made ++ [node]) xml :=
  congrArg (fun trees => { base with trees, firstXml := xml }) (TreeArena.of_alloc made node)

namespace Statement

theorem noteXml_ends (span : Span) (statement : Statement) (made : List Node)
    (xml : Option Position) : (noteXml span statement).Ends inner s (base.midway made xml) ()
      (base.midway made (xml.or
        (if statement = .xml then some (base.source.position span.start) else none))) := by
  cases statement with
  | xml => exact .look (.change (.done ()))
  | _ =>
    rw [if_neg nofun, Option.or_none]
    exact .done ()

theorem filled_text (read : ofText? text = some statement) : text.isEmpty = false := by
  obtain ⟨c, more, begins, _⟩ := statement.render_solid
  rw [ofText?_exact.mp read, begins]
  rfl

theorem parseLines_reads (base : CompilationUnit) {pieces : List (List Char)}
    (readable : unreadableIn pieces = none) (line offset : Nat) (made : List Node) (xml : Option Position) :
    (parseLines (SourceLine.startingAt offset pieces)).Ends inner s (base.midway made xml)
      (.ok ((allotted made.length ((placedFrom line offset pieces).map Placed.node)).map (·.1)))
      (base.midway (made ++ (placedFrom line offset pieces).map Placed.node)
        (xml.or (xmlPosition? base.source (placedFrom line offset pieces)))) := by
  induction pieces generalizing line offset made xml with
  | nil =>
    simp only [placedFrom, List.map_nil, List.append_nil, xmlPosition?, List.find?_nil,
      Option.map_none, Option.or_none]
    exact .done _
  | cons piece rest ih =>
    obtain ⟨here, others⟩ := unreadableIn_cons readable
    have later := ih others (line + 1) (offset + Text.size piece)
    simp only [SourceLine.startingAt, parseLines, placedFrom]
    obtain empty | ⟨statement, read⟩ := here
    · have blank : ofText? [] = none := rfl
      rw [empty]
      simp only [List.isEmpty_nil, if_true, blank]
      exact later made xml
    · let p : Placed := ⟨line, offset, statement⟩
      have next := later (made ++ [p.node]) (xml.or
        (if statement = .xml then some (base.source.position (.ofNat offset)) else none))
      rw [List.append_assoc, Option.or_assoc, List.length_append, List.length_singleton] at next
      simp only [filled_text read, Bool.false_eq_true, if_false, read, List.map_cons,
        xmlPosition?_cons, allotted_cons]
      refine (noteXml_ends ..).bind (.change ?_)
      rw [CompilationUnit.midway_alloc, ofText?_exact.mp read]
      exact next.bind (.done _)

theorem parseLines_stops (base : CompilationUnit) {pieces : List (List Char)} {text : List Char}
    (unreadable : unreadableIn pieces = some text) (offset : Nat) (made : List Node)
    (xml : Option Position) : ∃ more later,
      (parseLines (SourceLine.startingAt offset pieces)).Ends inner s (base.midway made xml)
        (.error ⟨"cannot parse `" ++ String.ofList text ++ "`"⟩) (base.midway more later) := by
  induction pieces generalizing offset made xml with
  | nil => cases unreadable
  | cons piece rest ih =>
    have onwards : unreadableIn rest = some text → ∀ made xml, ∃ more later,
        (parseLines (SourceLine.startingAt (offset + Text.size piece) rest)).Ends inner s
          (base.midway made xml) (.error ⟨"cannot parse `" ++ String.ofList text ++ "`"⟩)
          (base.midway more later) :=
      fun others made xml => ih others _ made xml
    simp only [SourceLine.startingAt, parseLines]
    by_cases empty : (Text.trimEnd piece).isEmpty = true
    · have others : unreadableIn rest = some text := by
        simpa [unreadableIn, empty] using unreadable
      rw [if_pos empty]
      exact onwards others made xml
    · rw [if_neg empty]
      cases read : ofText? (Text.trimEnd piece) with
      | none =>
        have odd : isStatement (Text.trimEnd piece) = false := by
          rw [← ofText?_isSome, read]
          rfl
        obtain rfl : Text.trimEnd piece = text := by
          simpa [unreadableIn, empty, odd] using unreadable
        exact ⟨made, xml, .done _⟩
      | some statement =>
        have plain : isStatement (Text.trimEnd piece) = true := by
          rw [← ofText?_isSome, read]
          rfl
        have others : unreadableIn rest = some text := by
          simpa [unreadableIn, plain] using unreadable
        obtain ⟨more, later, next⟩ := onwards others (made ++ [⟨statement.kind, ⟨.ofNat offset,
          .ofNat (offset + Text.size (Text.trimEnd piece))⟩, []⟩]) (xml.or
            (if statement = .xml then some (base.source.position (.ofNat offset)) else none))
        refine ⟨more, later, (noteXml_ends ..).bind (.change ?_)⟩
        rw [CompilationUnit.midway_alloc]
        exact next.bind (.done _)

end Statement

namespace SourceFile

def ids (source : SourceFile) : List NodeId := source.entries.map (·.1)

def parsed (source : SourceFile) : CompilationUnit :=
  { CompilationUnit.new source with
    trees := source.layout source.ids []
    body := some source.root
    firstXml := xmlPosition? source source.statements }

end SourceFile

def CompilationUnit.reading (u : CompilationUnit) : CompilationUnit :=
  { u with
    trees := u.source.layout u.source.ids []
    body := some u.source.root
    firstXml := xmlPosition? u.source u.source.statements }

-- Whether nothing was read into a unit yet, or what was is cleared away.
def CompilationUnit.Unread (u : CompilationUnit) : Prop := u.trees = {} ∧ u.firstXml = .none

theorem CompilationUnit.Unread.midway {u : CompilationUnit} (unread : u.Unread) :
    u.midway [] .none = u := by
  obtain ⟨empty, unseen⟩ := unread
  rw [CompilationUnit.midway, ← unseen]
  exact congrArg (fun trees => { u with trees }) empty.symm

namespace Statement
variable {source : SourceFile} {u : CompilationUnit}

theorem parse_unread (unread : u.Unread) (readable : u.source.unreadable? = none) :
    parse.Ends inner s u (.ok ()) u.reading := by
  have lines : (parseLines (SourceLine.all u.source.chars)).Ends inner s (u.midway [] none)
      (.ok u.source.ids) (u.midway u.source.nodes (xmlPosition? u.source u.source.statements)) :=
    parseLines_reads u readable 1 0 [] none
  rw [unread.midway] at lines
  refine .look (lines.bind (.change ?_))
  rw [CompilationUnit.midway_alloc]
  exact .change (.done (Except.ok ()))

theorem parse_refuses (unread : u.Unread) (unreadable : u.source.unreadable? = some text) :
    ∃ v, parse.Ends inner s u (.error ⟨"cannot parse `" ++ String.ofList text ++ "`"⟩) v ∧
      v.source = u.source := by
  obtain ⟨more, later, lines⟩ := parseLines_stops u unreadable 0 [] none
  rw [unread.midway] at lines
  exact ⟨_, .look (lines.bind (.done _)), rfl⟩

theorem parse_reads (readable : source.unreadable? = none) :
    parse.Ends inner s (.new source) (.ok ()) source.parsed := parse_unread ⟨rfl, rfl⟩ readable

theorem parse_stops (unreadable : source.unreadable? = some text) :
    ∃ u, parse.Ends inner s (.new source)
      (.error ⟨"cannot parse `" ++ String.ofList text ++ "`"⟩) u ∧ u.source = source :=
  parse_refuses ⟨rfl, rfl⟩ unreadable

end Statement

end UnitPipeline
