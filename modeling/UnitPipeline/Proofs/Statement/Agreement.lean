import UnitPipeline.Proofs.Declaration.Bijection
import UnitPipeline.Proofs.Statement.Reading
import UnitPipeline.Proofs.Statement.Table

namespace UnitPipeline

def NodeKind.introduces : NodeKind → List (String × DeclKind)
  | defDef name => [(name, .method)]
  | classDef name => [(name, .classType), (Statement.applyName name, .method)]
  | _ => []

theorem Statement.kind_introduces (statement : Statement) :
    statement.kind.introduces = statement.introduces := by
  cases statement <;> rfl

def introducedIn (children : List (NodeId × Node)) : List (String × DeclKind) :=
  children.flatMap (·.2.kind.introduces)

theorem SourceFile.introducedIn_entries (source : SourceFile) :
    introducedIn source.entries = source.introduces := by
  have nodes : introducedIn source.entries = source.nodes.flatMap (·.kind.introduces) := by
    rw [← allotted_nodes 0 source.nodes, List.flatMap_map]
    rfl
  rw [nodes, SourceFile.nodes, List.flatMap_map]
  exact List.flatMap_congr fun p _ => p.statement.kind_introduces

namespace DeclTable
variable {table decls : DeclTable} {made : List Introduction} {name : String}

theorem ofSources_append (table : DeclTable) (before behind : List SourceFile) :
    table.ofSources (before ++ behind) =
      (table.ofSources before).bind fun next => next.ofSources behind := by
  induction before generalizing table with
  | nil => rfl
  | cons source rest ih =>
    rw [List.cons_append, ofSources, ofSources]
    cases DeclTable.declareAll source (Statement.introducedBy source.chars) table with
    | error e => rfl
    | ok next => exact ih next

theorem ofSources_one (table : DeclTable) (source : SourceFile) : table.ofSources [source] =
    DeclTable.declareAll source (Statement.introducedBy source.chars) table := by
  rw [ofSources]
  cases DeclTable.declareAll source (Statement.introducedBy source.chars) table <;> rfl

theorem Lists.toList_made (lists : table.Lists made) :
    table.toList.map Declaration.introduction = made := by
  rw [lists.entries, List.map_map]
  exact List.zipIdx_map_fst 0 made

end DeclTable

-- What the declarations made for a source line by line have to do with the children of
-- its body: they are those of the children, made in their order, and they are there when
-- the namer asks for them.
structure ReadersAgree (source : SourceFile) (children : List (NodeId × Node)) : Prop where
  read : Statement.introducedBy source.chars = introducedIn children
  called : ∀ before : List SourceFile, ({} : DeclTable).ofSources (before ++ [source]) =
    (({} : DeclTable).ofSources before).bind (DeclTable.declareAll source (introducedIn children))
  rows : ∀ before behind decls, ({} : DeclTable).ofSources (before ++ source :: behind) = .ok decls →
    decls.toList.map Declaration.introduction = introductions before ++
      ((introducedIn children).map (Introduction.of source) ++ introductions behind)
  found : ∀ sources decls, ({} : DeclTable).ofSources sources = .ok decls → source ∈ sources →
    ∀ entry ∈ introducedIn children, ∃ d, decls.named? entry.1 = some d ∧ d.name = entry.1 ∧
      d.kind = entry.2 ∧ d.source = source

theorem agrees_of_read {source : SourceFile} {children : List (NodeId × Node)}
    (read : Statement.introducedBy source.chars = introducedIn children) :
    ReadersAgree source children := by
  refine ⟨read, ?_, ?_, ?_⟩
  · intro before
    rw [DeclTable.ofSources_append, ← read]
    exact congrArg _ (funext fun next => next.ofSources_one source)
  · intro before behind decls told
    rw [(DeclTable.ofSources_lists told).toList_made, introductions, List.flatMap_append,
      List.flatMap_cons, read]
    rfl
  · intro sources decls told inside entry among
    obtain ⟨first, row⟩ := DeclTable.declared_in_row told inside
    rw [read] at row
    obtain ⟨place, here⟩ := List.mem_iff_getElem?.mp among
    exact ⟨_, row place entry here, rfl, rfl, rfl⟩

theorem reading_agrees {u : CompilationUnit} (readable : u.source.unreadable? = none)
    (room : u.source.statements.length < UInt32.size) :
    ReadersAgree u.source (Statement.topLevel u.reading) := by
  have fits : u.source.nodes.length < UInt32.size := by rwa [SourceFile.nodes, List.length_map]
  have children : Statement.topLevel u.reading = u.source.entries :=
    SourceFile.layout_topLevel fits rfl rfl fun _ inside => SourceFile.layout_entry fits inside
  rw [children]
  refine agrees_of_read ?_
  rw [SourceFile.introducedBy_eq readable, SourceFile.introducedIn_entries]

-- A source is read twice: line by line, when all names are declared, and by the parser,
-- which comes to an end on every source. If it takes the source, the readers agree.
theorem readers_agree {σ : Type} {inner : Drain σ} {s : Session} {u : CompilationUnit}
    (unread : u.Unread) (room : u.source.statements.length < UInt32.size) :
    ∃ out, (Statement.parse : Action σ (Except PhaseError Unit)).run inner ⟨s, u⟩ = some out ∧
      (out.value = .ok () → ReadersAgree u.source (Statement.topLevel out.desk.unit)) := by
  cases readable : u.source.unreadable? with
  | none =>
    obtain ⟨events, ran⟩ := Statement.parse_unread unread readable
    exact ⟨_, ran, fun _ => reading_agrees readable room⟩
  | some text =>
    obtain ⟨v, ⟨events, ran⟩, _⟩ := Statement.parse_refuses unread readable
    exact ⟨_, ran, nofun⟩

def unevenLines : SourceFile :=
  .persistent "m" "def  λ \u3000\r\n\u00a0\r\ncase C d\r\n<xml/>\u2003\ndef a\rb\u0085"

def indented : SourceFile := .inMemory "e" "  def z\n"

def unevenTable : DeclTable :=
  ⟨#[⟨⟨0⟩, "z", .method, indented⟩, ⟨⟨1⟩, " λ", .method, unevenLines⟩,
    ⟨⟨2⟩, "C d", .classType, unevenLines⟩, ⟨⟨3⟩, "C d.apply", .method, unevenLines⟩,
    ⟨⟨4⟩, "a\rb", .method, unevenLines⟩]⟩

theorem unevenLines_agree :
    indented.unreadable? = some "  def z".toList ∧
      unevenLines.statements.length < UInt32.size ∧
      ({} : DeclTable).ofSources [indented, unevenLines] = .ok unevenTable ∧
      ∃ out, (Statement.parse : Action Unit (Except PhaseError Unit)).run (fun _ _ _ => none)
          ⟨.global, .new unevenLines⟩ = some out ∧ out.value = .ok () ∧
        introducedIn (Statement.topLevel out.desk.unit) = [(" λ", .method), ("C d", .classType),
          ("C d.apply", .method), ("a\rb", .method)] ∧
        ∃ d, unevenTable.named? "C d.apply" = some d ∧ d.source = unevenLines := by
  have unread : (CompilationUnit.new unevenLines).Unread := ⟨rfl, rfl⟩
  have room : unevenLines.statements.length < UInt32.size := by decide +kernel
  have readable : unevenLines.unreadable? = none := by decide +kernel
  let work : Action Unit (Except PhaseError Unit) := Statement.parse
  obtain ⟨out, ran, agree⟩ : ∃ out, work.run (fun _ _ _ => none) ⟨.global, .new unevenLines⟩ =
      some out ∧ (out.value = .ok () → ReadersAgree unevenLines (Statement.topLevel out.desk.unit)) :=
    readers_agree unread room
  obtain ⟨events, reads⟩ : work.Ends (fun _ _ _ => none) .global (.new unevenLines) (.ok ())
      (CompilationUnit.reading (.new unevenLines)) := Statement.parse_unread unread readable
  have accepted : out.value = .ok () := by
    rw [ran] at reads
    rw [Option.some.inj reads]
  have told : ({} : DeclTable).ofSources [indented, unevenLines] = .ok unevenTable := rfl
  have agrees := agree accepted
  have entries : introducedIn (Statement.topLevel out.desk.unit) = [(" λ", .method),
      ("C d", .classType), ("C d.apply", .method), ("a\rb", .method)] := by
    rw [← agrees.read]
    decide +kernel
  have among : unevenLines ∈ [indented, unevenLines] := by simp
  obtain ⟨d, found, _, _, owner⟩ := agrees.found _ _ told among ("C d.apply", .method)
    (by simp [entries])
  exact ⟨by decide +kernel, room, told, out, ran, accepted, entries, d, found, owner⟩

end UnitPipeline
