import Stencil.Batch.Arguments
import Stencil.Batch.Folder
import Stencil.Batch.Glob
import Stencil.Batch.Path
import Stencil.Batch.Run
import Stencil.Catalog.Alignment
import Stencil.Catalog.Basic
import Stencil.Catalog.Figure
import Stencil.Catalog.Flaw
import Stencil.Catalog.Phrase
import Stencil.Catalog.Specification
import Stencil.Class.Basic
import Stencil.Class.Manual
import Stencil.Class.Member
import Stencil.Class.Thing
import Stencil.Directive.Compile
import Stencil.Directive.Condition
import Stencil.Directive.Grammar
import Stencil.Directive.Options
import Stencil.Directive.Reading
import Stencil.Directive.Registry
import Stencil.Document
import Stencil.Document.Node
import Stencil.Document.Number
import Stencil.Document.Quoted
import Stencil.Failure
import Stencil.Fault
import Stencil.Highlight.Span
import Stencil.Highlight.Terminal
import Stencil.Keyed
import Stencil.Log
import Stencil.Main
import Stencil.Number.Binary64
import Stencil.Number.Rounded
import Stencil.Number.Shortest
import Stencil.Program.Basic
import Stencil.Program.Block
import Stencil.Program.Code
import Stencil.Program.Eval
import Stencil.Program.Layout
import Stencil.Program.Shape
import Stencil.Proofs.Acceptance
import Stencil.Proofs.Batches
import Stencil.Proofs.Chunks
import Stencil.Proofs.Contents
import Stencil.Proofs.Declared
import Stencil.Proofs.Digits
import Stencil.Proofs.Direct
import Stencil.Proofs.Doubles
import Stencil.Proofs.Escapes
import Stencil.Proofs.Failing
import Stencil.Proofs.Filling
import Stencil.Proofs.Indentation
import Stencil.Proofs.Inert
import Stencil.Proofs.Instruction
import Stencil.Proofs.Kept
import Stencil.Proofs.Lenient
import Stencil.Proofs.Levels
import Stencil.Proofs.Lines
import Stencil.Proofs.Literals
import Stencil.Proofs.Lookups
import Stencil.Proofs.Markup
import Stencil.Proofs.Names
import Stencil.Proofs.Nested
import Stencil.Proofs.Numerals
import Stencil.Proofs.Passage
import Stencil.Proofs.Places
import Stencil.Proofs.Refines
import Stencil.Proofs.Refusals
import Stencil.Proofs.Relaxed
import Stencil.Proofs.Runs
import Stencil.Proofs.Scoped
import Stencil.Proofs.Sections
import Stencil.Proofs.Simulation
import Stencil.Proofs.Spellings
import Stencil.Proofs.Spots
import Stencil.Proofs.Stacks
import Stencil.Proofs.Step
import Stencil.Proofs.Strictness
import Stencil.Proofs.Throughout
import Stencil.Proofs.Tokens
import Stencil.Proofs.Unfailing
import Stencil.Proofs.Unsectioned
import Stencil.Proofs.Visible
import Stencil.Proofs.Watch
import Stencil.Proofs.Whole
import Stencil.Reference.Basic
import Stencil.Reference.Literal
import Stencil.Render.Form
import Stencil.Render.Loop
import Stencil.Render.Run
import Stencil.Render.State
import Stencil.Report
import Stencil.Settings
import Stencil.Template
import Stencil.Text.Basic
import Stencil.Text.Half
import Stencil.Text.Markup
import Stencil.Text.Quoted
import Stencil.Text.Table
import Stencil.Token.Basic
import Stencil.Token.Delimiter
import Stencil.Token.Request
import Stencil.Token.Scan
import Stencil.Value.Basic
import Stencil.Value.Display
import Stencil.Value.Equality
import Stencil.Value.Items
import Stencil.Value.Member
import Stencil.Value.Order
import Stencil.Proofs.Constants
import Stencil.Proofs.Written
import Stencil.Proofs.Lexemes
import Stencil.Proofs.Clauses
import Stencil.Proofs.Meaning
import Stencil.Proofs.Turns
import Stencil.Proofs.Entries
import Stencil.Proofs.Parameters
import Stencil.Proofs.Placeholders
import Stencil.Proofs.Options
import Stencil.Proofs.Derivations
import Stencil.Proofs.Respelled
import Stencil.Proofs.Generated
import Stencil.Proofs.Interpolation
import Stencil.Proofs.Stopping
import Stencil.Proofs.Tags
import Stencil.Proofs.Controls
import Stencil.Proofs.Bindings
import Stencil.Proofs.Standalone
import Stencil.Proofs.Reserved
import Stencil.Proofs.Closings
import Stencil.Proofs.Optioned
import Stencil.Proofs.Collisions
import Stencil.Proofs.Evaluated
import Stencil.Proofs.Continued
import Stencil.Proofs.Hidden
import Stencil.Proofs.Registrations
import Stencil.Proofs.Valued
import Stencil.Proofs.Likeness
import Stencil.Proofs.Comparisons
import Stencil.Proofs.Patterns
import Stencil.Proofs.Rules
import Stencil.Proofs.Colours
import Stencil.Proofs.Counted
import Stencil.Proofs.Collected
