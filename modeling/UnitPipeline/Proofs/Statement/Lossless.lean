import Mathlib.Data.List.Forall2
import UnitPipeline.Proofs.Statement.Reading
import UnitPipeline.Proofs.Text.Filled

namespace UnitPipeline

def NodeKind.written? : NodeKind → Option String
  | defDef name => some ("def " ++ name)
  | classDef name => some ("case " ++ name)
  | ident name => some ("use " ++ name)
  | importPath path => (Statement.pathFeature? path).map ("feature " ++ ·)
  | literal value => some ("assert " ++ value)
  | xmlLiteral => some "<xml/>"
  | _ => none

theorem Statement.kind_written (statement : Statement) :
    statement.kind.written? = some statement.render := by
  cases statement with
  | feature name => exact congrArg (Option.map _) (pathFeature?_featurePath name)
  | _ => rfl

namespace Text

def FilledLine.position (line : FilledLine) : Position := ⟨.ofNat line.start, .ofNat line.number, 1⟩

def FilledLine.placed? (line : FilledLine) : Option Placed :=
  (Statement.ofText? line.text).map fun statement => ⟨line.number, line.start, statement⟩

end Text

open Text (FilledLine filledLines lineAmong terminatedSize)

def Placed.filled (p : Placed) : FilledLine := ⟨p.line, p.offset, p.statement.render.toList⟩

theorem placedFrom_cons (line offset : Nat) (piece : List Char) (rest : List (List Char)) :
    placedFrom line offset (piece :: rest) =
      (FilledLine.placed? ⟨line, offset, Text.trimEnd piece⟩).toList ++
        placedFrom (line + 1) (offset + Text.size piece) rest := by
  rw [placedFrom, FilledLine.placed?]
  cases Statement.ofText? (Text.trimEnd piece) <;> rfl

-- The statements stand on the lines between newlines, and the running number and offset
-- are those of these lines.
theorem placedFrom_lines (rest : List Char) (earlier segments : List (List Char))
    (among : segments = earlier ++ rest.splitOn '\n') :
    placedFrom (earlier.length + 1) (terminatedSize earlier) (Text.pieces rest) =
      ((rest.splitOn '\n').zipIdx earlier.length).flatMap fun e =>
        (lineAmong segments e).placed?.toList := by
  induction rest using Text.lines_induction generalizing earlier with
  | last text whole =>
    rw [Text.splitOn_alone whole, List.zipIdx_singleton, List.flatMap_singleton,
      Text.lineAmong_here among]
    by_cases empty : text = []
    · rw [empty]
      rfl
    · rw [Text.pieces_whole whole empty, placedFrom_cons, placedFrom, List.append_nil]
  | line body rest whole ih =>
    rw [Text.splitOn_line whole] at among ⊢
    rw [Text.pieces_break whole, placedFrom_cons, Text.trimEnd_newline, List.zipIdx_cons,
      List.flatMap_cons, Text.lineAmong_here among]
    have size : terminatedSize (earlier ++ [body]) =
        terminatedSize earlier + Text.size (body ++ ['\n']) := by
      rw [Text.terminatedSize_append, Text.size_append]
      rfl
    have split : segments = (earlier ++ [body]) ++ rest.splitOn '\n' := by
      rw [among, List.append_assoc]
      rfl
    have later := ih (earlier ++ [body]) split
    rw [size, List.length_append, List.length_singleton] at later
    rw [← later]

namespace SourceFile
variable {source : SourceFile} {p : Placed}

theorem statements_lines (source : SourceFile) :
    source.statements = (filledLines source.chars).filterMap FilledLine.placed? := by
  have solid (line : FilledLine) :
      (if decide (line.text ≠ []) then line.placed? else none) = line.placed? := by
    by_cases blank : line.text = []
    · simp [FilledLine.placed?, blank]
      rfl
    · simp [blank]
  have all := placedFrom_lines source.chars [] (source.chars.splitOn '\n') rfl
  rw [← List.filterMap_eq_flatMap_toList] at all
  rw [filledLines, List.filterMap_filter, List.filterMap_map]
  simp only [solid]
  exact all

theorem readable_iff : source.unreadable? = none ↔
    ∀ line ∈ filledLines source.chars, Statement.isStatement line.text = true := by
  have texts := Text.filledLines_texts source.chars
  rw [unreadable?, unreadableIn, List.find?_eq_none]
  constructor
  · intro all line inside
    have among := List.mem_map_of_mem (f := (·.text)) inside
    rw [texts] at among
    obtain ⟨listed, filled⟩ := List.mem_filter.mp among
    simpa [of_decide_eq_true filled] using all line.text listed
  · intro all text listed
    by_cases empty : text = []
    · simp [empty]
    · have among : text ∈ ((Text.pieces source.chars).map Text.trimEnd).filter (· ≠ []) :=
        List.mem_filter.mpr ⟨listed, decide_eq_true empty⟩
      rw [← texts] at among
      obtain ⟨line, inside, rfl⟩ := List.mem_map.mp among
      simp [all line inside]

theorem lines_filled (readable : source.unreadable? = none) :
    filledLines source.chars = source.statements.map Placed.filled := by
  have each : ∀ line ∈ filledLines source.chars,
      line.placed?.map Placed.filled = some line := by
    intro line inside
    have plain := readable_iff.mp readable line inside
    rw [← Statement.ofText?_isSome, Option.isSome_iff_exists] at plain
    obtain ⟨statement, read⟩ := plain
    rw [FilledLine.placed?, read, Option.map_some, Option.map_some, Placed.filled,
      ← Statement.ofText?_exact.mp read]
  rw [statements_lines, List.map_filterMap, List.filterMap_congr each, List.filterMap_some]

theorem statement_span (small : source.length < UInt64.size) (inside : p ∈ source.statements) :
    p.span.start.toNat = p.filled.start ∧ p.span.stop.toNat = p.filled.stop ∧
      p.span.isEmpty = false ∧ p.filled.stop ≤ source.length ∧
      source.text p.span = p.statement.render := by
  obtain ⟨before, piece, after, stands⟩ := source.statement_stands inside
  obtain ⟨blanks, parts, _⟩ := Text.trimEnd_append piece
  rw [stands.reads] at parts
  have whole : source.chars = before ++ (p.statement.render.toList ++ (blanks ++ after)) := by
    rw [stands.parts, ← List.append_assoc p.statement.render.toList, ← parts]
  have start : Text.size before = p.filled.start := stands.bytes
  have stop : Text.size (before ++ p.statement.render.toList) = p.filled.stop := by
    rw [Text.size_append, start]
    rfl
  have long := p.statement.render_long
  have ends : p.filled.stop ≤ source.length := by
    rw [length, whole, ← List.append_assoc, Text.size_append, stop]
    exact Nat.le_add_right ..
  have filled : p.filled.start < p.filled.stop := by
    simp only [FilledLine.stop, Placed.filled]
    omega
  have fits : p.filled.stop < UInt64.size := Nat.lt_of_le_of_lt ends small
  have first : p.span.start.toNat = p.filled.start :=
    UInt64.toNat_ofNat_of_lt' (Nat.lt_trans filled fits)
  have last : p.span.stop.toNat = p.filled.stop := UInt64.toNat_ofNat_of_lt' fits
  have wide : p.span.isEmpty = false := by
    rw [Span.isEmpty, decide_eq_false_iff_not, UInt64.le_iff_toNat_le]
    omega
  refine ⟨first, last, wide, ends, ?_⟩
  rw [text, wide, first, last, ← start, ← stop, whole, Text.slice?_exact]
  exact String.ofList_toList

end SourceFile

structure Carries (u : CompilationUnit) (e : NodeId × Node) (line : FilledLine) : Prop where
  found : u.trees.get? e.1 = some e.2
  leaf : e.2.children = []
  start : e.2.span.start.toNat = line.start
  stop : e.2.span.stop.toNat = line.stop
  text : u.source.text e.2.span = String.ofList line.text
  written : e.2.kind.written? = some (String.ofList line.text)
  position : u.nodePosition e.1 = line.position
  offset : (u.nodePosition e.1).offset.toNat = line.start
  line : (u.nodePosition e.1).line.toNat = line.number
  column : (u.nodePosition e.1).column = 1

structure Lossless (u : CompilationUnit) (root : NodeId) (block : Node)
    (entries : List (NodeId × Node)) : Prop where
  body : u.body = some root
  found : u.trees.get? root = some block
  kind : block.kind = .block
  start : block.span.start.toNat = 0
  stop : block.span.stop.toNat = u.source.length
  children : block.children = entries.map (·.1)
  lines : List.Forall₂ (Carries u) entries (filledLines u.source.chars)
  within : ∀ e ∈ entries, e.2.span.isEmpty = false ∧ block.span.contains e.2.span = true
  apart : entries.Pairwise fun a b => a.2.span.stop < b.2.span.start
  xml : u.firstXml = ((filledLines u.source.chars).find?
    fun line => line.text = "<xml/>".toList).map FilledLine.position

section
variable {u : CompilationUnit} {p : Placed} {k : Nat}

theorem reading_carries (small : u.source.length < UInt32.size - 1)
    (inside : (p, k) ∈ u.source.statements.zipIdx) :
    Carries u.reading (.ofIndex k, p.node) p.filled := by
  have among : p ∈ u.source.statements := List.fst_mem_of_mem_zipIdx inside
  have entry : (NodeId.ofIndex k, p.node) ∈ u.source.entries := by
    rw [SourceFile.entries_eq]
    exact List.mem_map.mpr ⟨(p, k), inside, rfl⟩
  have room := SourceFile.nodes_fit (Nat.lt_of_lt_pred small)
  have found : u.reading.trees.get? (.ofIndex k) = some p.node := SourceFile.layout_entry room entry
  have long : u.source.length < UInt64.size := Nat.lt_trans small (by decide)
  obtain ⟨start, stop, _, _, text⟩ := SourceFile.statement_span long among
  have position : u.reading.nodePosition (.ofIndex k) = p.position := by
    rw [CompilationUnit.nodePosition, found]
    exact SourceFile.statement_position long among
  refine ⟨found, rfl, start, stop, ?_, ?_, position, ?_, ?_, ?_⟩
  · exact text.trans String.ofList_toList.symm
  · rw [Placed.filled, String.ofList_toList]
    exact p.statement.kind_written
  · rw [position]
    exact start
  · rw [position]
    exact SourceFile.statement_number small among
  · rw [position]
    rfl

theorem entries_carried (small : u.source.length < UInt32.size - 1) :
    List.Forall₂ (Carries u.reading) u.source.entries (u.source.statements.map Placed.filled) := by
  have lines : u.source.statements.map Placed.filled =
      u.source.statements.zipIdx.map fun e => e.1.filled := by
    have alone := congrArg (List.map Placed.filled) (List.zipIdx_map_fst 0 u.source.statements)
    rw [← alone, List.map_map]
    rfl
  rw [SourceFile.entries_eq, lines, List.forall₂_map_left_iff, List.forall₂_map_right_iff]
  exact List.forall₂_same.mpr fun _ inside => reading_carries small inside

theorem render_xml {statement : Statement} :
    statement = .xml ↔ statement.render.toList = "<xml/>".toList := by
  constructor
  · intro xml
    rw [xml]
    rfl
  · intro same
    have read := Statement.ofText?_render statement
    rw [same] at read
    exact (Option.some.inj read).symm

theorem SourceFile.xmlPosition_line {source : SourceFile} (small : source.length < UInt64.size)
    (readable : source.unreadable? = none) : xmlPosition? source source.statements =
      ((filledLines source.chars).find? fun line => line.text = "<xml/>".toList).map
        FilledLine.position := by
  have asked : ((fun line : FilledLine => decide (line.text = "<xml/>".toList)) ∘ Placed.filled) =
      fun p => decide (p.statement = .xml) :=
    funext fun p => decide_eq_decide.mpr render_xml.symm
  rw [lines_filled readable, List.find?_map, asked, Option.map_map, xmlPosition?]
  cases found : source.statements.find? fun p => p.statement = .xml with
  | none => rfl
  | some p => exact congrArg some (statement_position small (List.mem_of_find?_eq_some found))

theorem reading_lossless (small : u.source.length < UInt32.size - 1)
    (readable : u.source.unreadable? = none) :
    Lossless u.reading u.source.root (u.source.block u.source.ids) u.source.entries := by
  have room := SourceFile.nodes_fit (Nat.lt_of_lt_pred small)
  have long : u.source.length < UInt64.size := Nat.lt_trans small (by decide)
  have length : (UInt64.ofNat u.source.length).toNat = u.source.length :=
    UInt64.toNat_ofNat_of_lt' long
  refine ⟨rfl, SourceFile.layout_root room, rfl, rfl, length, rfl, ?_, ?_, ?_,
    SourceFile.xmlPosition_line long readable⟩
  · exact (SourceFile.lines_filled readable).symm ▸ entries_carried small
  · intro e inside
    have listed : e.2 ∈ u.source.nodes := by
      rw [← allotted_nodes 0 u.source.nodes]
      exact List.mem_map_of_mem inside
    obtain ⟨p, among, same⟩ := List.mem_map.mp listed
    have spans : e.2.span = p.span := congrArg Node.span same.symm
    obtain ⟨_, stop, filled, ends, _⟩ := SourceFile.statement_span long among
    rw [spans]
    exact ⟨filled, Span.contains_exact.mpr ⟨Nat.zero_le _, (stop.trans_le ends).trans_eq length.symm⟩⟩
  · have ordered := Text.filledLines_apart u.source.chars
    rw [SourceFile.lines_filled readable, List.pairwise_map] at ordered
    have nodes : u.source.nodes.Pairwise fun a b => a.span.stop < b.span.start := by
      refine List.pairwise_map.mpr (ordered.imp_of_mem fun first second before => ?_)
      obtain ⟨_, stop, _⟩ := SourceFile.statement_span long first
      obtain ⟨start, _⟩ := SourceFile.statement_span long second
      rw [UInt64.lt_iff_toNat_lt]
      exact (stop.trans_lt before).trans_eq start.symm
    rw [← allotted_nodes 0 u.source.nodes] at nodes
    exact List.pairwise_map.mp nodes

end

-- A unit into which nothing was read is parsed to an end. The parser accepts a source if
-- all its lines that are not blank are statements, and then the tree gives these lines
-- back, and the places they have.
theorem parsing_lossless {σ : Type} {inner : Drain σ} {s : Session} {u : CompilationUnit}
    (unread : u.Unread) (small : u.source.length < UInt32.size - 1) :
    ∃ out, (Statement.parse : Action σ (Except PhaseError Unit)).run inner ⟨s, u⟩ = some out ∧
      out.desk.unit.source = u.source ∧
      (out.value = .ok () ↔
        ∀ line ∈ filledLines u.source.chars, Statement.isStatement line.text = true) ∧
      (out.value = .ok () → ∃ root block entries, Lossless out.desk.unit root block entries) := by
  cases readable : u.source.unreadable? with
  | none =>
    obtain ⟨events, ran⟩ := Statement.parse_unread unread readable
    exact ⟨_, ran, rfl, iff_of_true rfl (SourceFile.readable_iff.mp readable),
      fun _ => ⟨_, _, _, reading_lossless small readable⟩⟩
  | some text =>
    obtain ⟨v, ⟨events, ran⟩, same⟩ := Statement.parse_refuses unread readable
    refine ⟨_, ran, same, iff_of_false nofun ?_, nofun⟩
    intro plain
    rw [SourceFile.readable_iff.mpr plain] at readable
    cases readable

def mixedLines : SourceFile := .persistent "m" "def λ\u3000\r\n\u00a0\n<xml/> \n\nfeature ü"

theorem mixedLines_lossless :
    filledLines mixedLines.chars =
        [⟨1, 0, "def λ".toList⟩, ⟨3, 14, "<xml/>".toList⟩, ⟨5, 23, "feature ü".toList⟩] ∧
      ∃ out root block entries,
        (Statement.parse : Action Unit (Except PhaseError Unit)).run (fun _ _ _ => none)
          ⟨.global, .new mixedLines⟩ = some out ∧
        out.value = .ok () ∧ Lossless out.desk.unit root block entries ∧
        out.desk.unit.firstXml = some ⟨14, 3, 1⟩ := by
  have unread : (CompilationUnit.new mixedLines).Unread := ⟨rfl, rfl⟩
  have small : mixedLines.length < UInt32.size - 1 := by decide +kernel
  have lines : filledLines (CompilationUnit.new mixedLines).source.chars =
      [⟨1, 0, "def λ".toList⟩, ⟨3, 14, "<xml/>".toList⟩, ⟨5, 23, "feature ü".toList⟩] := by
    decide +kernel
  obtain ⟨out, ran, same, accepted, tree⟩ := parsing_lossless unread small
  rw [lines] at accepted
  have plain := accepted.mpr (by decide +kernel)
  obtain ⟨root, block, entries, lossless⟩ := tree plain
  have xml := lossless.xml
  rw [same, lines] at xml
  exact ⟨lines, out, root, block, entries, ran, plain, lossless, xml⟩

end UnitPipeline
