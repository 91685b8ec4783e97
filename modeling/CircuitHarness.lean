import CircuitHarness.Action
import CircuitHarness.Address
import CircuitHarness.Cache
import CircuitHarness.Circuit
import CircuitHarness.Context
import CircuitHarness.Contracts
import CircuitHarness.Contracts.Ownable
import CircuitHarness.Contracts.Script
import CircuitHarness.Contracts.Simple
import CircuitHarness.Contracts.Witness
import CircuitHarness.Cost
import CircuitHarness.Decimal.Reader
import CircuitHarness.Decimal.Shortest
import CircuitHarness.Dispatcher
import CircuitHarness.Execution
import CircuitHarness.Failure
import CircuitHarness.Journal
import CircuitHarness.Journal.Console
import CircuitHarness.Manager
import CircuitHarness.Manager.Bare
import CircuitHarness.Options
import CircuitHarness.Options.File
import CircuitHarness.Options.Issue
import CircuitHarness.Options.Schema
import CircuitHarness.Proofs.Agreement
import CircuitHarness.Proofs.Callee
import CircuitHarness.Proofs.Caller
import CircuitHarness.Proofs.Clean
import CircuitHarness.Proofs.Desk
import CircuitHarness.Proofs.Erasing
import CircuitHarness.Proofs.Failing
import CircuitHarness.Proofs.Findings
import CircuitHarness.Proofs.Grammar
import CircuitHarness.Proofs.Hex
import CircuitHarness.Proofs.Injection
import CircuitHarness.Proofs.Keeping
import CircuitHarness.Proofs.Log
import CircuitHarness.Proofs.Machine
import CircuitHarness.Proofs.Offered
import CircuitHarness.Proofs.OptionFile
import CircuitHarness.Proofs.Order
import CircuitHarness.Proofs.Quiet
import CircuitHarness.Proofs.Reachable
import CircuitHarness.Proofs.Rejection
import CircuitHarness.Proofs.Relation
import CircuitHarness.Proofs.Replacing
import CircuitHarness.Proofs.Samples
import CircuitHarness.Proofs.Sequential
import CircuitHarness.Proofs.Sorting
import CircuitHarness.Proofs.Spelling
import CircuitHarness.Proofs.Steady
import CircuitHarness.Proofs.Tracking
import CircuitHarness.Proofs.Twin
import CircuitHarness.Proofs.Uncached
import CircuitHarness.Proofs.Utf8
import CircuitHarness.Proofs.Written
import CircuitHarness.Report
import CircuitHarness.Scenario.Cell
import CircuitHarness.Scenario.Session
import CircuitHarness.Scenario.Shelf
import CircuitHarness.Scenario.Trial
import CircuitHarness.Simulator
import CircuitHarness.Simulator.Build
import CircuitHarness.Simulator.Operation
import CircuitHarness.Sorting
import CircuitHarness.Sorting.Merge
import CircuitHarness.Sorting.Search
import CircuitHarness.Table
import CircuitHarness.Text.Hex
import CircuitHarness.Text.Lines
import CircuitHarness.Text.Numeral
import CircuitHarness.Text.Path
import CircuitHarness.Text.Printable
import CircuitHarness.Text.Quoted
import CircuitHarness.Text.Surrogate
import CircuitHarness.Text.Utf8
import CircuitHarness.Value
import CircuitHarness.Value.Access
import CircuitHarness.Value.Depth
import CircuitHarness.Value.Number
import CircuitHarness.Value.Order
import CircuitHarness.Value.Text
import CircuitHarness.Yaml.Document
import CircuitHarness.Yaml.Merge
import CircuitHarness.Yaml.Node
import CircuitHarness.Yaml.Object
import CircuitHarness.Yaml.Scalar
import CircuitHarness.Yaml.Source
import CircuitHarness.Yaml.Token
import CircuitHarness.Yaml.Token.Cursor
import CircuitHarness.Yaml.Token.Lexer
import CircuitHarness.Yaml.Token.Scalar
import CircuitHarness.Proofs.Success
import CircuitHarness.Proofs.Charging
import CircuitHarness.Proofs.Records
import CircuitHarness.Proofs.Shown
import CircuitHarness.Proofs.Bumping
import CircuitHarness.Proofs.Ownership
import CircuitHarness.Proofs.Deployed
import CircuitHarness.Proofs.Freshness
import CircuitHarness.Proofs.Generations
import CircuitHarness.Proofs.Hierarchy
import CircuitHarness.Proofs.Logging
import CircuitHarness.Proofs.Delivery
import CircuitHarness.Proofs.Construction
import CircuitHarness.Proofs.Switching
import CircuitHarness.Proofs.Slots
import CircuitHarness.Proofs.Building
import CircuitHarness.Proofs.Placing
import CircuitHarness.Proofs.Reporting
import CircuitHarness.Proofs.OptionSources
import CircuitHarness.Proofs.Apart
import CircuitHarness.Proofs.Lookup
import CircuitHarness.Proofs.Framing
import CircuitHarness.Proofs.WitnessTable
import CircuitHarness.Proofs.Sender
