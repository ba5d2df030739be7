import ComponentAtlas.Cache.Flight
import ComponentAtlas.Engine.Session
import ComponentAtlas.Main
import ComponentAtlas.Model.Decoding
import ComponentAtlas.Pattern.Reading
import ComponentAtlas.Proofs.Engine.RightToBuild
import ComponentAtlas.Proofs.Search.Memo
import ComponentAtlas.Proofs.Engine.FailedBuild
import ComponentAtlas.Proofs.Distinct
import ComponentAtlas.Proofs.Index.Merge
import ComponentAtlas.Proofs.Category.Table
import ComponentAtlas.Proofs.Index.Documentation
import ComponentAtlas.Proofs.Snapshot.WellFormed
import ComponentAtlas.Proofs.Snapshot.Family
import ComponentAtlas.Proofs.Snapshot.Relations
import ComponentAtlas.Proofs.Index.InternalTypes
import ComponentAtlas.Proofs.Cache.Keeping
import ComponentAtlas.Proofs.Cache.FlightStep
import ComponentAtlas.Proofs.Cache.FlightGate
import ComponentAtlas.Proofs.Cache.Turns
import ComponentAtlas.Proofs.Cache.SingleFlight
import ComponentAtlas.Proofs.Engine.Publication
import ComponentAtlas.Proofs.Engine.Freshness
import ComponentAtlas.Proofs.Cache.Live
import ComponentAtlas.Proofs.Engine.Calls
import ComponentAtlas.Proofs.Engine.InOneGo
import ComponentAtlas.Proofs.Cache.PlainMap
import ComponentAtlas.Proofs.CSharp.Names
import ComponentAtlas.Proofs.Snapshot.Lookup
import ComponentAtlas.Proofs.CSharp.LiteralCut
import ComponentAtlas.Proofs.CSharp.LexemeCut
import ComponentAtlas.Proofs.CSharp.Rereading
import ComponentAtlas.Proofs.CSharp.Gap
import ComponentAtlas.Proofs.Declaration.Comments
import ComponentAtlas.Proofs.Cache.GateTable
import ComponentAtlas.Proofs.Snapshot.Membership
import ComponentAtlas.Proofs.Index.Namesakes
import ComponentAtlas.Proofs.CSharp.Layout
import ComponentAtlas.Proofs.Razor.Dedent
import ComponentAtlas.Proofs.Razor.ComponentSource
import ComponentAtlas.Proofs.Declaration.ComponentFile
import ComponentAtlas.Proofs.Keyed
import ComponentAtlas.Proofs.Index.Entries
import ComponentAtlas.Proofs.Index.Partials
import ComponentAtlas.Proofs.Index.FoundTwice
import ComponentAtlas.Proofs.Index.Overloads
import ComponentAtlas.Proofs.Index.Descriptions
import ComponentAtlas.Proofs.Text.Lines
import ComponentAtlas.Proofs.Text.Recogniser
import ComponentAtlas.Proofs.Text.Solid
import ComponentAtlas.Proofs.Text.Unquoted
import ComponentAtlas.Proofs.Text.TopLevel
import ComponentAtlas.Proofs.CSharp.Signs
import ComponentAtlas.Proofs.Razor.CodeBlock
import ComponentAtlas.Proofs.Razor.BlockEnd
import ComponentAtlas.Proofs.Example.Openers
import ComponentAtlas.Proofs.Declaration.FormalParameter
import ComponentAtlas.Proofs.CSharp.Written
import ComponentAtlas.Proofs.CSharp.WrittenNames
import ComponentAtlas.Proofs.CSharp.WrittenHeaders
import ComponentAtlas.Proofs.CSharp.WrittenMembers
import ComponentAtlas.Proofs.CSharp.WrittenSources
import ComponentAtlas.Proofs.CSharp.Spelling
import ComponentAtlas.Proofs.CSharp.Places
import ComponentAtlas.Proofs.Declaration.TypePlaces
import ComponentAtlas.Proofs.Declaration.EnumValues
import ComponentAtlas.Proofs.Declaration.Markers
import ComponentAtlas.Proofs.Declaration.Body
import ComponentAtlas.Proofs.Declaration.EventType
import ComponentAtlas.Proofs.Declaration.Properties
import ComponentAtlas.Proofs.Declaration.Methods
import ComponentAtlas.Proofs.Unicode.Sigma
import ComponentAtlas.Proofs.Snapshot.Spellings
import ComponentAtlas.Proofs.Snapshot.Links
import ComponentAtlas.Proofs.Snapshot.DisplayNames
import ComponentAtlas.Proofs.Search.Verbatim
import ComponentAtlas.Proofs.Category.Partition
import ComponentAtlas.Proofs.Cache.Unmade
import ComponentAtlas.Proofs.Index.Stages
import ComponentAtlas.Proofs.Index.Cancellation
import ComponentAtlas.Proofs.DocsPage.Sections
import ComponentAtlas.Proofs.Text.Preview
import ComponentAtlas.Proofs.Text.Escape
import ComponentAtlas.Proofs.DocsPage.Prose
import ComponentAtlas.Proofs.Razor.DirectiveLines
import ComponentAtlas.Proofs.Json.Reading
import ComponentAtlas.Proofs.Model.RoundTrip
import ComponentAtlas.Proofs.Text.ArgumentList
