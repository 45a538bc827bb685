import LintBridge.Analysis.Basic
import LintBridge.Analysis.Execute
import LintBridge.Analysis.Host
import LintBridge.Analysis.Run
import LintBridge.Analysis.Script
import LintBridge.Analysis.Session
import LintBridge.Cancellation
import LintBridge.Catalog
import LintBridge.Clock
import LintBridge.CommandLine.Arguments
import LintBridge.CommandLine.Run
import LintBridge.CommandLine.Site
import LintBridge.CommandLine.Trouble
import LintBridge.Decimal.Shortest
import LintBridge.Duration
import LintBridge.Execution.Course
import LintBridge.Execution.Machine
import LintBridge.Execution.Status
import LintBridge.FileTree.Basic
import LintBridge.FileTree.Write
import LintBridge.Glob.Pattern
import LintBridge.Glob.Regular
import LintBridge.Http.Response
import LintBridge.Issue
import LintBridge.Json.Basic
import LintBridge.Json.Printer
import LintBridge.Json.Reader
import LintBridge.Log
import LintBridge.Main
import LintBridge.Message
import LintBridge.Path
import LintBridge.Progress
import LintBridge.Project.Files
import LintBridge.Project.Ignore
import LintBridge.Proofs.Analysis.Books
import LintBridge.Proofs.Analysis.Calls
import LintBridge.Proofs.Analysis.Dialogue
import LintBridge.Proofs.Analysis.FailFast
import LintBridge.Proofs.Analysis.Interruption
import LintBridge.Proofs.Analysis.Likeness
import LintBridge.Proofs.Analysis.Location
import LintBridge.Proofs.Analysis.Passage
import LintBridge.Proofs.Analysis.Stages
import LintBridge.Proofs.Analysis.Succession
import LintBridge.Proofs.Analysis.SyntaxErrors
import LintBridge.Proofs.Analysis.Transcript
import LintBridge.Proofs.CommandLine.Conclusion
import LintBridge.Proofs.FileTree.Replacement
import LintBridge.Proofs.Json.Grammar
import LintBridge.Proofs.Json.Literals
import LintBridge.Proofs.Json.Printing
import LintBridge.Proofs.Json.Reading
import LintBridge.Proofs.Json.Record
import LintBridge.Proofs.Path.Components
import LintBridge.Proofs.Path.Extension
import LintBridge.Proofs.Path.Join
import LintBridge.Proofs.Path.Order
import LintBridge.Proofs.Report.Accounts
import LintBridge.Proofs.Report.Channels
import LintBridge.Proofs.Report.Listing
import LintBridge.Proofs.RuleSet.Resolution
import LintBridge.Proofs.Settings.Validity
import LintBridge.Proofs.Text.Lines
import LintBridge.Proofs.Text.Lossy
import LintBridge.Proofs.Text.Removal
import LintBridge.Proofs.Text.Trim
import LintBridge.Proofs.Text.Utf8
import LintBridge.Proofs.Url.FilePath
import LintBridge.Proofs.Worker.Accounts
import LintBridge.Proofs.Worker.Analyses
import LintBridge.Proofs.Worker.Answers
import LintBridge.Proofs.Worker.Callers
import LintBridge.Proofs.Worker.Exclusion
import LintBridge.Proofs.Worker.Forwarding
import LintBridge.Proofs.Worker.Latch
import LintBridge.Proofs.Worker.LaunchBudget
import LintBridge.Proofs.Worker.LaunchCount
import LintBridge.Proofs.Worker.Operation
import LintBridge.Proofs.Worker.Processes
import LintBridge.Proofs.Worker.Requests
import LintBridge.Proofs.Worker.Standing
import LintBridge.Proofs.Worker.Steps
import LintBridge.Proofs.Worker.Verdicts
import LintBridge.Report.External
import LintBridge.Report.Import
import LintBridge.Report.Writer
import LintBridge.Request
import LintBridge.Rule
import LintBridge.RuleSet
import LintBridge.RuleSet.Store
import LintBridge.Settings.Basic
import LintBridge.Settings.Document
import LintBridge.Settings.Expand
import LintBridge.Settings.Load
import LintBridge.Shared
import LintBridge.Shell.Run
import LintBridge.Shell.Syntax
import LintBridge.Shell.Value
import LintBridge.SourceFile
import LintBridge.Text.Blank
import LintBridge.Text.Digit
import LintBridge.Text.Excerpt
import LintBridge.Text.Hex
import LintBridge.Text.Lines
import LintBridge.Text.Quoted
import LintBridge.Text.Remove
import LintBridge.Text.Split
import LintBridge.Text.Utf8
import LintBridge.Toml.Moment
import LintBridge.Toml.Quoted
import LintBridge.Toml.Reader
import LintBridge.Toml.Scalar
import LintBridge.Toml.Table
import LintBridge.Url.Basic
import LintBridge.Url.Host
import LintBridge.Url.Parser
import LintBridge.Url.Percent
import LintBridge.WarningList
import LintBridge.Worker.Bundle
import LintBridge.Worker.Command
import LintBridge.Worker.Deadline
import LintBridge.Worker.Error
import LintBridge.Worker.Exchange
import LintBridge.Worker.Handle
import LintBridge.Worker.Listener
import LintBridge.Worker.NodeVersion
import LintBridge.Worker.OutputLine
import LintBridge.Worker.Plan
import LintBridge.Worker.Runtime
import LintBridge.Worker.Supervisor.Basic
import LintBridge.Worker.Supervisor.Run
import LintBridge.Worker.Workshop
import LintBridge.Proofs.Settings.Expansion
import LintBridge.Proofs.Settings.BlankPaths
import LintBridge.Proofs.Message
import LintBridge.Proofs.Shared
import LintBridge.Proofs.Cancellation.Guards
import LintBridge.Proofs.Cancellation.Outcomes
import LintBridge.Proofs.Report.Lines
import LintBridge.Proofs.RuleSet.Determination
import LintBridge.Proofs.Settings.RuleParams
import LintBridge.Proofs.Lists
import LintBridge.Proofs.RuleSet.ListParams
import LintBridge.Proofs.Toml.Keys
import LintBridge.Proofs.Worker.Polling
import LintBridge.Proofs.Worker.Version
import LintBridge.Proofs.Path.Below
import LintBridge.Proofs.Report.ShownPath
import LintBridge.Proofs.Worker.Notices
import LintBridge.Proofs.Analysis.Notices
import LintBridge.Proofs.CommandLine.Layers
import LintBridge.Proofs.Settings.Sources
import LintBridge.Proofs.Progress
import LintBridge.Proofs.Analysis.Reporting
import LintBridge.Proofs.FileTree.Entries
import LintBridge.Proofs.Project.Walk
import LintBridge.Proofs.Project.Listing
import LintBridge.Proofs.Project.TestFiles
import LintBridge.Proofs.Project.Suffixes
import LintBridge.Proofs.WarningList
import LintBridge.Proofs.Report.Sources
import LintBridge.Proofs.Worker.Deadline
import LintBridge.Proofs.CommandLine.Deadlines
import LintBridge.Proofs.FileTree.Holding
import LintBridge.Proofs.RuleSet.Document
import LintBridge.Proofs.Analysis.Configuration
