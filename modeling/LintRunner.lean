import LintRunner.Text.Blank
import LintRunner.Text.Lines
import LintRunner.Text.Quoted
import LintRunner.Text.Substitution
import LintRunner.Text.Word
import LintRunner.Text.CaseFold
import LintRunner.Text.Utf8
import LintRunner.Path.Lexical
import LintRunner.Regex.Parser
import LintRunner.Pattern.Matcher
import LintRunner.World
import LintRunner.Git
import LintRunner.Ignore.Walk
import LintRunner.Selection.Selector
import LintRunner.Group
import LintRunner.Filter.Invocation
import LintRunner.Duration
import LintRunner.Script
import LintRunner.Starter.Write
import LintRunner.Cli.Run
import LintRunner.Config.Loaded
import LintRunner.Main
import LintRunner.Proofs.Run.Basic
import LintRunner.Proofs.Run.Idle
import LintRunner.Proofs.Run.Finds
import LintRunner.Proofs.Run.Start
import LintRunner.Proofs.Path.Order
import LintRunner.Proofs.Path.Below
import LintRunner.Proofs.Pattern.Verdict
import LintRunner.Proofs.FileTree.Lookup
import LintRunner.Proofs.FileTree.Sound
import LintRunner.Proofs.Selection.Frame
import LintRunner.Proofs.Selection.Chosen
import LintRunner.Proofs.Filter.Invocation
import LintRunner.Proofs.Pass.Attempts
import LintRunner.Proofs.Pass.Targets
import LintRunner.Proofs.Pass.Stash
import LintRunner.Proofs.Pass.Outcome
import LintRunner.Proofs.Pass.Handed
import LintRunner.Proofs.Pass.Coverage
import LintRunner.Proofs.Ignore.Force
import LintRunner.Proofs.Ignore.Walk
import LintRunner.Proofs.Ignore.Release
import LintRunner.Proofs.Ignore.Subwalk
import LintRunner.Proofs.Ignore.Freed
import LintRunner.Proofs.Filter.Tidy
import LintRunner.Proofs.Selection.Balance
import LintRunner.Proofs.FileTree.Resolve
import LintRunner.Proofs.Selection.Directory
import LintRunner.Proofs.Run.Reads
import LintRunner.Proofs.Selection.Sources
import LintRunner.Proofs.Pattern.Name
import LintRunner.Proofs.Selection.Control
import LintRunner.Proofs.Filter.Kinds
import LintRunner.Proofs.Selection.Standing
import LintRunner.Proofs.Pass.Kinds
import LintRunner.Proofs.Pass.Early
import LintRunner.Proofs.Git.Printed
import LintRunner.Proofs.Selection.Listing
import LintRunner.Proofs.Run.Agrees
import LintRunner.Proofs.Selection.Agrees
import LintRunner.Proofs.Filter.Agrees
import LintRunner.Proofs.Pass.Place
import LintRunner.Proofs.FileTree.Alike
import LintRunner.Proofs.Filter.Frame
import LintRunner.Proofs.Pass.Steps
import LintRunner.Proofs.Pass.Apart
import LintRunner.Proofs.Pass.Pool
import LintRunner.Proofs.Run.Prints
import LintRunner.Proofs.Pass.Schedule
import LintRunner.Proofs.Pass.Bare
import LintRunner.Proofs.Filter.Arguments
import LintRunner.Proofs.Pass.Linted
import LintRunner.Proofs.Selection.Reported
import LintRunner.Proofs.Pattern.Bracket
import LintRunner.Proofs.Ignore.Load
import LintRunner.Proofs.Text.Utf8
import LintRunner.Proofs.Toml.Rest
import LintRunner.Proofs.Config.Load
import LintRunner.Proofs.Pass.Closing
import LintRunner.Proofs.FileTree.Grown
import LintRunner.Proofs.Run.Furnish
import LintRunner.Proofs.Starter.Write
import LintRunner.Proofs.Selection.Ends
import LintRunner.Proofs.FileTree.Normal
import LintRunner.Proofs.Selection.Meant
import LintRunner.Proofs.Starter.Kept
import LintRunner.Proofs.Table
import LintRunner.Proofs.Toml.Key
import LintRunner.Proofs.Toml.Local
import LintRunner.Proofs.Toml.Kept
import LintRunner.Proofs.Toml.Statement
import LintRunner.Proofs.Toml.Section
import LintRunner.Proofs.Config.Key
import LintRunner.Proofs.Config.Settings
import LintRunner.Proofs.Starter.Render
import LintRunner.Proofs.Starter.Template
import LintRunner.Proofs.Starter.Loads
import LintRunner.Proofs.Ignore.Fold
import LintRunner.Proofs.Ignore.Missing
import LintRunner.Proofs.Pattern.Depth
import LintRunner.Proofs.Starter.Detect
