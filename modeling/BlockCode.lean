import BlockCode.Command.Clock
import BlockCode.Command.Files
import BlockCode.Command.Library
import BlockCode.Command.Line
import BlockCode.Command.Options
import BlockCode.Command.Path
import BlockCode.Command.Product
import BlockCode.Command.Run
import BlockCode.Command.Shell
import BlockCode.Command.Watch
import BlockCode.Document.Error
import BlockCode.Document.Fields
import BlockCode.Document.File
import BlockCode.Document.Load
import BlockCode.Document.Save
import BlockCode.Effect
import BlockCode.Fault
import BlockCode.Generation.Code
import BlockCode.Generation.Error
import BlockCode.Generation.ErrorObject
import BlockCode.Generation.Pass
import BlockCode.Generation.Session
import BlockCode.Json.Error
import BlockCode.Json.Reader
import BlockCode.Json.Scanner
import BlockCode.Json.Writer
import BlockCode.Language.Basic
import BlockCode.Language.Config
import BlockCode.Language.Python
import BlockCode.Language.Script
import BlockCode.Language.Template
import BlockCode.Log
import BlockCode.Main
import BlockCode.Names.Basic
import BlockCode.Names.HelperFunction
import BlockCode.Names.Identifier
import BlockCode.Names.Request
import BlockCode.Number.Binary64
import BlockCode.Number.Extended
import BlockCode.Number.Reading
import BlockCode.Number.Shortest
import BlockCode.Proofs.Command.Check
import BlockCode.Proofs.Command.Files
import BlockCode.Proofs.Command.Refresh
import BlockCode.Proofs.Command.Shell
import BlockCode.Proofs.Command.Watch
import BlockCode.Proofs.Document.Exact
import BlockCode.Proofs.Document.Grown
import BlockCode.Proofs.Document.Growth
import BlockCode.Proofs.Document.Identity
import BlockCode.Proofs.Document.Outline
import BlockCode.Proofs.Document.Positions
import BlockCode.Proofs.Document.Reading
import BlockCode.Proofs.Document.Refusal
import BlockCode.Proofs.Document.Rooted
import BlockCode.Proofs.Document.RoundTrip
import BlockCode.Proofs.Document.Shape
import BlockCode.Proofs.Document.Standing
import BlockCode.Proofs.Document.Stumbling
import BlockCode.Proofs.Document.Tidy
import BlockCode.Proofs.Document.Transfer
import BlockCode.Proofs.Document.Writing
import BlockCode.Proofs.Generation.Blame
import BlockCode.Proofs.Generation.Chronicle
import BlockCode.Proofs.Generation.CommentLines
import BlockCode.Proofs.Generation.Course
import BlockCode.Proofs.Generation.Culprits
import BlockCode.Proofs.Generation.Faults
import BlockCode.Proofs.Generation.Follows
import BlockCode.Proofs.Generation.History
import BlockCode.Proofs.Generation.Hushed
import BlockCode.Proofs.Generation.Identifiers
import BlockCode.Proofs.Generation.Keeps
import BlockCode.Proofs.Generation.Linked
import BlockCode.Proofs.Generation.Nesting
import BlockCode.Proofs.Generation.Orders
import BlockCode.Proofs.Generation.Outcome
import BlockCode.Proofs.Generation.Reattached
import BlockCode.Proofs.Generation.Reentrance
import BlockCode.Proofs.Generation.Remarked
import BlockCode.Proofs.Generation.Remarks
import BlockCode.Proofs.Generation.Renewal
import BlockCode.Proofs.Generation.Replay
import BlockCode.Proofs.Generation.Requests
import BlockCode.Proofs.Generation.Reserved
import BlockCode.Proofs.Generation.Running
import BlockCode.Proofs.Generation.Success
import BlockCode.Proofs.Generation.Trail
import BlockCode.Proofs.Generation.Translations
import BlockCode.Proofs.Generation.Twins
import BlockCode.Proofs.Generation.Unplugged
import BlockCode.Proofs.Generation.Verdict
import BlockCode.Proofs.Generation.Visits
import BlockCode.Proofs.Language.PythonComments
import BlockCode.Proofs.Language.PythonCourses
import BlockCode.Proofs.Language.PythonElision
import BlockCode.Proofs.Language.PythonGrammar
import BlockCode.Proofs.Language.PythonHygiene
import BlockCode.Proofs.Language.PythonIdentifiers
import BlockCode.Proofs.Language.PythonIndents
import BlockCode.Proofs.Language.PythonLines
import BlockCode.Proofs.Language.PythonLinking
import BlockCode.Proofs.Language.PythonLiterals
import BlockCode.Proofs.Language.PythonLiveness
import BlockCode.Proofs.Language.PythonNaming
import BlockCode.Proofs.Language.PythonPasses
import BlockCode.Proofs.Language.PythonPhrases
import BlockCode.Proofs.Language.PythonPrecedence
import BlockCode.Proofs.Language.PythonPrints
import BlockCode.Proofs.Language.PythonRemarks
import BlockCode.Proofs.Language.PythonRequests
import BlockCode.Proofs.Language.PythonStatements
import BlockCode.Proofs.Language.PythonTerms
import BlockCode.Proofs.Language.PythonTokens
import BlockCode.Proofs.Language.PythonTyping
import BlockCode.Proofs.Language.PythonVerdict
import BlockCode.Proofs.Names.Calls
import BlockCode.Proofs.Names.Definitions
import BlockCode.Proofs.Names.Fresh
import BlockCode.Proofs.Names.Ledger
import BlockCode.Proofs.Names.Legal
import BlockCode.Proofs.Names.Own
import BlockCode.Proofs.Names.Places
import BlockCode.Proofs.Number.Exact
import BlockCode.Proofs.Number.Overflow
import BlockCode.Proofs.Text.Leading
import BlockCode.Proofs.Text.LineEnds
import BlockCode.Proofs.Text.Margins
import BlockCode.Proofs.Text.Normal
import BlockCode.Proofs.Text.Remarked
import BlockCode.Proofs.Text.Shown
import BlockCode.Proofs.Text.Whole
import BlockCode.Proofs.Text.Within
import BlockCode.Proofs.Text.Words
import BlockCode.Proofs.Value.Sameness
import BlockCode.Proofs.Workspace.Acyclic
import BlockCode.Proofs.Workspace.Attachment
import BlockCode.Proofs.Workspace.Bypass
import BlockCode.Proofs.Workspace.Descent
import BlockCode.Proofs.Workspace.Edits
import BlockCode.Proofs.Workspace.Filling
import BlockCode.Proofs.Workspace.Linking
import BlockCode.Proofs.Workspace.Live
import BlockCode.Proofs.Workspace.Lost
import BlockCode.Proofs.Workspace.Parts
import BlockCode.Proofs.Workspace.Settled
import BlockCode.Proofs.Workspace.Tree
import BlockCode.Proofs.Workspace.Unplug
import BlockCode.Proofs.Workspace.Wiring
import BlockCode.Text.Blank
import BlockCode.Text.Lines
import BlockCode.Text.Lower
import BlockCode.Text.Printable
import BlockCode.Text.Quoted
import BlockCode.Text.Ranges
import BlockCode.Text.Spelling
import BlockCode.Text.Word
import BlockCode.Value.Basic
import BlockCode.Value.Sorted
import BlockCode.Value.Table
import BlockCode.Value.Text
import BlockCode.Workspace.Access
import BlockCode.Workspace.Basic
import BlockCode.Workspace.Block
import BlockCode.Workspace.Tree
