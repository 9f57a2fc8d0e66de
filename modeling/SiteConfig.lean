import SiteConfig.Attempt
import SiteConfig.Changelist
import SiteConfig.Check.Basic
import SiteConfig.Check.Problem
import SiteConfig.Check.Standard
import SiteConfig.Command.Arguments
import SiteConfig.Command.Console
import SiteConfig.Command.Import
import SiteConfig.Command.Report
import SiteConfig.Command.Run
import SiteConfig.Comparison
import SiteConfig.Dependencies
import SiteConfig.Document
import SiteConfig.Error
import SiteConfig.Extension
import SiteConfig.Extension.Catalog
import SiteConfig.Extension.Manifest
import SiteConfig.Failure
import SiteConfig.FileTree.Basic
import SiteConfig.FileTree.Path
import SiteConfig.Import.Basic
import SiteConfig.Import.Run
import SiteConfig.ImportError
import SiteConfig.Json.Decode
import SiteConfig.Json.Reader
import SiteConfig.Json.Value
import SiteConfig.Ledger.Basic
import SiteConfig.Ledger.Event
import SiteConfig.Ledger.Run
import SiteConfig.Lifecycle.Basic
import SiteConfig.Lifecycle.Recorded
import SiteConfig.Lifecycle.Scripted
import SiteConfig.Lock
import SiteConfig.Main
import SiteConfig.Name
import SiteConfig.NameMap
import SiteConfig.Number.Binary64
import SiteConfig.Number.Shortest
import SiteConfig.Plan
import SiteConfig.Plan.Gather
import SiteConfig.Plan.Graph
import SiteConfig.Proofs.Advance
import SiteConfig.Proofs.Aggregation
import SiteConfig.Proofs.Agreement
import SiteConfig.Proofs.Cached
import SiteConfig.Proofs.Changelist
import SiteConfig.Proofs.Closure
import SiteConfig.Proofs.Consistency
import SiteConfig.Proofs.Content
import SiteConfig.Proofs.Course
import SiteConfig.Proofs.Cycles
import SiteConfig.Proofs.Desk
import SiteConfig.Proofs.FirstStep
import SiteConfig.Proofs.Foundation
import SiteConfig.Proofs.Freshness
import SiteConfig.Proofs.Hall
import SiteConfig.Proofs.Installed
import SiteConfig.Proofs.Integrity
import SiteConfig.Proofs.Journal
import SiteConfig.Proofs.Kahn
import SiteConfig.Proofs.NameMap
import SiteConfig.Proofs.Operation
import SiteConfig.Proofs.Outcome
import SiteConfig.Proofs.Pending
import SiteConfig.Proofs.Plan
import SiteConfig.Proofs.Proposal
import SiteConfig.Proofs.Reached
import SiteConfig.Proofs.Reordering
import SiteConfig.Proofs.Resumption
import SiteConfig.Proofs.Review
import SiteConfig.Proofs.Run
import SiteConfig.Proofs.Scene
import SiteConfig.Proofs.Schedule
import SiteConfig.Proofs.Sharing
import SiteConfig.Proofs.Summary
import SiteConfig.Proofs.Surroundings
import SiteConfig.Proofs.Turns
import SiteConfig.Proofs.Workshop
import SiteConfig.Schema.Basic
import SiteConfig.Schema.Catalog
import SiteConfig.Schema.Embedded
import SiteConfig.Schema.Glob
import SiteConfig.Schema.Violation
import SiteConfig.Settings.Basic
import SiteConfig.Settings.Layers
import SiteConfig.Settings.Load
import SiteConfig.SingleImport
import SiteConfig.Site
import SiteConfig.Step
import SiteConfig.Storage.Basic
import SiteConfig.Storage.Cached
import SiteConfig.Storage.Database
import SiteConfig.Storage.Directory
import SiteConfig.Storage.Faulty
import SiteConfig.Storage.Memory
import SiteConfig.Storage.Overlay
import SiteConfig.Text.Blank
import SiteConfig.Text.Hidden
import SiteConfig.Text.Lowercase
import SiteConfig.Text.Quoted
import SiteConfig.Text.Table
import SiteConfig.Text.Width
import SiteConfig.Timestamp
import SiteConfig.Transform
import SiteConfig.Uuid
import SiteConfig.World
import SiteConfig.Yaml.AsJson
import SiteConfig.Yaml.Decode
import SiteConfig.Yaml.Loose
import SiteConfig.Yaml.Node
import SiteConfig.Yaml.Reader
import SiteConfig.Yaml.Scalar
import SiteConfig.Yaml.Token
import SiteConfig.Yaml.Token.Cursor
import SiteConfig.Yaml.Token.Lexer
import SiteConfig.Yaml.Token.Scalar
import SiteConfig.Yaml.Value
import SiteConfig.Yaml.Writer
import SiteConfig.Proofs.Difference
import SiteConfig.Proofs.Ordering
import SiteConfig.Proofs.Components
import SiteConfig.Proofs.CycleReport
import SiteConfig.Proofs.FileTree
import SiteConfig.Proofs.Texts
import SiteConfig.Proofs.Backends
import SiteConfig.Proofs.Export
import SiteConfig.Proofs.Frame
import SiteConfig.Proofs.Halfway
import SiteConfig.Proofs.Planned
import SiteConfig.Proofs.Drivers
import SiteConfig.Proofs.SingleDocument
import SiteConfig.Proofs.Backing
import SiteConfig.Proofs.Renaming
import SiteConfig.Proofs.Contents
import SiteConfig.Proofs.Keeping
import SiteConfig.Proofs.Maps
import SiteConfig.Proofs.Refusals
import SiteConfig.Proofs.Identity
import SiteConfig.Proofs.Calendar
import SiteConfig.Proofs.JsonTexts
import SiteConfig.Proofs.Recording
import SiteConfig.Proofs.Histories
import SiteConfig.Proofs.Replica
import SiteConfig.Proofs.Registry
import SiteConfig.Proofs.Layering
import SiteConfig.Proofs.Reading
import SiteConfig.Proofs.Records
import SiteConfig.Proofs.Thinning
import SiteConfig.Proofs.Sections
import SiteConfig.Proofs.Unset
import SiteConfig.Proofs.Coverage
import SiteConfig.Proofs.Members
import SiteConfig.Proofs.Rules
import SiteConfig.Proofs.Admission
import SiteConfig.Proofs.Sameness
import SiteConfig.Proofs.Declared
import SiteConfig.Proofs.Search
import SiteConfig.Proofs.Overriding
import SiteConfig.Proofs.Enclosure
