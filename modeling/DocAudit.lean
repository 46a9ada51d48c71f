import DocAudit.Api.Decode
import DocAudit.Api.Encode
import DocAudit.Api.Member
import DocAudit.Api.Snapshot
import DocAudit.Api.TypeRef
import DocAudit.Audit.Check
import DocAudit.Audit.Elements
import DocAudit.Audit.Grouping
import DocAudit.Audit.Library
import DocAudit.Audit.Visit
import DocAudit.CommandLine
import DocAudit.CommandLine.Help
import DocAudit.Console.Lines
import DocAudit.Console.Style
import DocAudit.Coverage.Encode
import DocAudit.Coverage.Tally
import DocAudit.Coverage.Tree
import DocAudit.DocId.Kind
import DocAudit.DocId.Spelling
import DocAudit.DocId.Synthesis
import DocAudit.Docs.Cache
import DocAudit.Docs.Documentation
import DocAudit.Docs.Lookup
import DocAudit.Failure
import DocAudit.Files
import DocAudit.Finding
import DocAudit.Glob.Pattern
import DocAudit.Glob.Search
import DocAudit.Json.Basic
import DocAudit.Json.Printer
import DocAudit.Json.Reader
import DocAudit.Json.Record
import DocAudit.Log
import DocAudit.Main
import DocAudit.Path.Basic
import DocAudit.Proofs.BadEntries
import DocAudit.Proofs.Colours
import DocAudit.Proofs.DefinedNames
import DocAudit.Proofs.Delegates
import DocAudit.Proofs.Encoding
import DocAudit.Proofs.ExitStatus
import DocAudit.Proofs.FindingLines
import DocAudit.Proofs.Flattening
import DocAudit.Proofs.FoundLibraries
import DocAudit.Proofs.GlobSearch
import DocAudit.Proofs.Grouping
import DocAudit.Proofs.Hidden
import DocAudit.Proofs.Independence
import DocAudit.Proofs.Interleaving
import DocAudit.Proofs.Inventory
import DocAudit.Proofs.LibraryNames
import DocAudit.Proofs.LoadedOnce
import DocAudit.Proofs.Lookups
import DocAudit.Proofs.MarkupNoise
import DocAudit.Proofs.MoreDocumentation
import DocAudit.Proofs.OneEdit
import DocAudit.Proofs.Overloads
import DocAudit.Proofs.OwnId
import DocAudit.Proofs.Places
import DocAudit.Proofs.PrintedSummary
import DocAudit.Proofs.Reading
import DocAudit.Proofs.Records
import DocAudit.Proofs.References
import DocAudit.Proofs.RepeatedLibraries
import DocAudit.Proofs.Reporting
import DocAudit.Proofs.RootDirectory
import DocAudit.Proofs.RootedGlobs
import DocAudit.Proofs.SamePlace
import DocAudit.Proofs.Scanning
import DocAudit.Proofs.Spelling
import DocAudit.Proofs.Tallies
import DocAudit.Proofs.TruncatedDocumentation
import DocAudit.Proofs.UnresolvedTypes
import DocAudit.Proofs.Verdict
import DocAudit.Proofs.Walk
import DocAudit.Proofs.WrittenDocumentation
import DocAudit.Report.Basic
import DocAudit.Report.Encode
import DocAudit.Run
import DocAudit.Settings.Effective
import DocAudit.Settings.File
import DocAudit.Settings.Libraries
import DocAudit.Survey
import DocAudit.Text.Blank
import DocAudit.Text.Reader
import DocAudit.Toml.Reader
import DocAudit.Toml.Scalar
import DocAudit.Toml.Value
import DocAudit.Xml.Chars
import DocAudit.Xml.Document
import DocAudit.Xml.LineEnd
import DocAudit.Xml.Node
import DocAudit.Xml.Scan
import DocAudit.Yaml.Cursor
import DocAudit.Yaml.Node
import DocAudit.Yaml.Scalar
import DocAudit.Yaml.Token
