import LoxLang.Bindings
import LoxLang.Command.Arguments
import LoxLang.Command.Prompt
import LoxLang.Command.Run
import LoxLang.Diagnostic
import LoxLang.Eval.Basic
import LoxLang.Eval.Machine
import LoxLang.FileTree
import LoxLang.Heap.Basic
import LoxLang.Heap.Frames
import LoxLang.Input
import LoxLang.Main
import LoxLang.Number.Binary
import LoxLang.Number.Decimal
import LoxLang.Number.Display
import LoxLang.Path
import LoxLang.Program.Basic
import LoxLang.Program.Parser
import LoxLang.Program.Printer
import LoxLang.Program.References
import LoxLang.Scope.Resolve
import LoxLang.Session.Basic
import LoxLang.Session.Step
import LoxLang.Settings.Basic
import LoxLang.Text.Bytes
import LoxLang.Text.Classes
import LoxLang.Text.Quoted
import LoxLang.Text.Utf8
import LoxLang.Token.Basic
import LoxLang.Token.Chunk
import LoxLang.Token.Scan
import LoxLang.Toml.Document
import LoxLang.Toml.Reader
import LoxLang.Toml.Scalar
import LoxLang.Value.Basic
import LoxLang.Value.Fault
import LoxLang.Value.Operators
import LoxLang.Proofs.Scope.Sites
import LoxLang.Proofs.Scope.Lexical
import LoxLang.Proofs.Scope.Violations
import LoxLang.Proofs.Eval.Layout
import LoxLang.Proofs.Eval.Updates
import LoxLang.Proofs.Eval.Runs
import LoxLang.Proofs.Eval.Steps
import LoxLang.Proofs.Eval.Soundness
import LoxLang.Proofs.Program.Grammar
import LoxLang.Proofs.Program.Reading
import LoxLang.Proofs.Program.Soundness
import LoxLang.Proofs.Program.Completeness
import LoxLang.Proofs.Program.Numbering
import LoxLang.Proofs.Token.Words
import LoxLang.Proofs.Session.Code
import LoxLang.Proofs.Session.Safety
import LoxLang.Proofs.Session.Search
import LoxLang.Proofs.Scope.Records
import LoxLang.Proofs.Scope.Once
import LoxLang.Proofs.Program.Relabel
import LoxLang.Proofs.Program.Renumber
import LoxLang.Proofs.Scope.Relabel
import LoxLang.Proofs.Program.Alike
import LoxLang.Proofs.Heap.Spelling
import LoxLang.Proofs.Eval.Twins
import LoxLang.Proofs.Eval.Parallel
import LoxLang.Proofs.Eval.Likeness
import LoxLang.Proofs.Eval.Machines
import LoxLang.Proofs.Session.Bench
import LoxLang.Proofs.Session.Discard
import LoxLang.Proofs.Token.Join
import LoxLang.Proofs.Program.Join
import LoxLang.Proofs.Session.Join
import LoxLang.Proofs.Program.Rename
import LoxLang.Proofs.Scope.Rename
import LoxLang.Proofs.Session.Rename
import LoxLang.Proofs.Eval.Moments
import LoxLang.Proofs.Eval.Changes
import LoxLang.Proofs.Eval.Growth
import LoxLang.Proofs.Eval.Underway
import LoxLang.Proofs.Heap.Chains
import LoxLang.Proofs.Session.Depth
import LoxLang.Proofs.Eval.Makers
import LoxLang.Proofs.Eval.Trace
import LoxLang.Proofs.Session.History
import LoxLang.Proofs.Session.Orderly
import LoxLang.Proofs.Scope.Supers
import LoxLang.Proofs.Eval.Covers
import LoxLang.Proofs.Eval.Dispatch
import LoxLang.Proofs.Session.Supers
import LoxLang.Proofs.Scope.Returns
import LoxLang.Proofs.Eval.Completions
import LoxLang.Proofs.Eval.Initializers
import LoxLang.Proofs.Session.Initializers
import LoxLang.Proofs.Session.Bookkeeping
import LoxLang.Proofs.Command.Words
import LoxLang.Proofs.Command.ExitCodes
import LoxLang.Proofs.Token.Lexemes
import LoxLang.Proofs.Token.Longest
import LoxLang.Proofs.Token.Placed
import LoxLang.Proofs.Scope.Gap
import LoxLang.Proofs.Heap.Hidden
import LoxLang.Proofs.Program.ForLoop
import LoxLang.Proofs.Eval.Overlay
import LoxLang.Proofs.Eval.Retraces
import LoxLang.Proofs.Eval.Copies
import LoxLang.Proofs.Eval.Resembles
import LoxLang.Proofs.Eval.ForLoop
import LoxLang.Proofs.Eval.Recorded
import LoxLang.Proofs.Session.ForLoops
import LoxLang.Proofs.Token.Layout
import LoxLang.Proofs.Program.Layout
import LoxLang.Proofs.Token.Indexed
import LoxLang.Proofs.Program.Indexed
import LoxLang.Proofs.Program.InStep
import LoxLang.Proofs.Program.Progress
import LoxLang.Proofs.Program.Recovery
import LoxLang.Proofs.Number.Digits
import LoxLang.Proofs.Number.Pattern
import LoxLang.Proofs.Number.Nearest
import LoxLang.Proofs.Program.Written
import LoxLang.Proofs.Program.Spelling
import LoxLang.Proofs.Program.WrittenTrees
import LoxLang.Proofs.Program.ReadBack
import LoxLang.Proofs.Number.Fields
import LoxLang.Proofs.Number.Whole
import LoxLang.Proofs.Number.Order
import LoxLang.Proofs.Text.Utf8
import LoxLang.Proofs.Value.CharacterSum
import LoxLang.Proofs.Value.Comparisons
import LoxLang.Proofs.Number.Numeral
import LoxLang.Proofs.Eval.Numerals
import LoxLang.Proofs.Eval.Printing
import LoxLang.Proofs.Program.Marks
import LoxLang.Proofs.Session.Echo
import LoxLang.Proofs.Scope.Additions
import LoxLang.Proofs.Session.Record
import LoxLang.Proofs.Heap.Operations
