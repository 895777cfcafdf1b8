import UnitPipeline.OrderedSet
import UnitPipeline.KeyedTable
import UnitPipeline.Text.Boundary
import UnitPipeline.Text.Blank
import UnitPipeline.Text.Line
import UnitPipeline.Text.Quoted
import UnitPipeline.Source.FileTree
import UnitPipeline.Source.Shelf
import UnitPipeline.FreshName
import UnitPipeline.Dependency
import UnitPipeline.Diagnostic
import UnitPipeline.Check.Queue
import UnitPipeline.Unit.Action
import UnitPipeline.Check.Standard
import UnitPipeline.Run.Driver
import UnitPipeline.Run.Rules
import UnitPipeline.Statement.Pipeline
import UnitPipeline.Json.Lexeme
import UnitPipeline.Json.Write
import UnitPipeline.Json.Read
import UnitPipeline.Json.Forms
import UnitPipeline.Proofs.Unit.History
import UnitPipeline.Proofs.Unit.Work
import UnitPipeline.Proofs.Unit.Conduct
import UnitPipeline.Proofs.Unit.Moment
import UnitPipeline.Proofs.Unit.Throughout
import UnitPipeline.Proofs.Unit.Aloof
import UnitPipeline.Proofs.Check.Limit
import UnitPipeline.Proofs.Check.Nest
import UnitPipeline.Proofs.Check.Blind
import UnitPipeline.Proofs.Check.Fifo
import UnitPipeline.Proofs.Check.Refinement
import UnitPipeline.Proofs.Check.Account
import UnitPipeline.Proofs.Check.Conservation
import UnitPipeline.Proofs.Run.Course
import UnitPipeline.Proofs.Run.Order
import UnitPipeline.Proofs.Run.Files
import UnitPipeline.Proofs.Run.Leftover
import UnitPipeline.Proofs.Run.Passage
import UnitPipeline.Proofs.Run.Step
import UnitPipeline.Proofs.Run.Telling
import UnitPipeline.Proofs.Run.PhaseMajor
import UnitPipeline.Proofs.Name.Collision
import UnitPipeline.Proofs.Check.InOrder
import UnitPipeline.Proofs.Run.Checkpoint
import UnitPipeline.Proofs.Run.Isolation
import UnitPipeline.Proofs.Run.Reuse
import UnitPipeline.Proofs.Check.Overtaking
import UnitPipeline.Proofs.Check.FirstFailure
import UnitPipeline.Proofs.Check.ClosedForm
import UnitPipeline.Proofs.Unit.Edges
import UnitPipeline.Proofs.Unit.Renewal
import UnitPipeline.Proofs.Unit.Takeover
import UnitPipeline.Proofs.Statement.Placed
import UnitPipeline.Proofs.Check.Answering
import UnitPipeline.Proofs.Run.Stages
import UnitPipeline.Proofs.Run.Way
import UnitPipeline.Proofs.Run.Blame
import UnitPipeline.Proofs.Statement.Conduct
import UnitPipeline.Proofs.Statement.Emission
import UnitPipeline.Proofs.Statement.Reports
import UnitPipeline.Proofs.Statement.References
import UnitPipeline.Proofs.Statement.Supply
import UnitPipeline.Proofs.Json.Faithful
import UnitPipeline.Proofs.Json.Overlay
import UnitPipeline.Proofs.Check.Warnings
import UnitPipeline.Proofs.Unit.Records
import UnitPipeline.Proofs.Check.Clearing
import UnitPipeline.Proofs.Check.Descent
import UnitPipeline.Proofs.Name.Coincidence
import UnitPipeline.Proofs.Name.Guard
import UnitPipeline.Proofs.Text.Segments
import UnitPipeline.Proofs.Source.Slice
import UnitPipeline.Proofs.Source.Hull
import UnitPipeline.Proofs.Declaration.Bijection
import UnitPipeline.Proofs.Declaration.Report
import UnitPipeline.Proofs.Text.Filled
import UnitPipeline.Proofs.Statement.Lossless
import UnitPipeline.Proofs.Statement.Agreement
