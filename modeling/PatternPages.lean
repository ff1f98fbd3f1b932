import PatternPages.Assembly
import PatternPages.CommandLine
import PatternPages.Configuration
import PatternPages.Error
import PatternPages.FileStore
import PatternPages.FileTree
import PatternPages.Html.Escape
import PatternPages.Html.Node
import PatternPages.Html.Page
import PatternPages.Location
import PatternPages.Main
import PatternPages.Marking.Delimiters
import PatternPages.Marking.Keywords
import PatternPages.Marking.Mark
import PatternPages.Marking.Piece
import PatternPages.Marking.Source
import PatternPages.Marking.Splice
import PatternPages.OrderedMap
import PatternPages.Path
import PatternPages.Proofs.Agreement
import PatternPages.Proofs.Bounds
import PatternPages.Proofs.Cut
import PatternPages.Proofs.Entries
import PatternPages.Proofs.IndexMarks
import PatternPages.Proofs.KeywordPass
import PatternPages.Proofs.MarkedLine
import PatternPages.Proofs.Markup
import PatternPages.Proofs.Misfits
import PatternPages.Proofs.Places
import PatternPages.Proofs.QueueOrder
import PatternPages.Proofs.Selection
import PatternPages.Proofs.Splicing
import PatternPages.Proofs.Stretches
import PatternPages.Proofs.TextPreservation
import PatternPages.Proofs.WordColumns
import PatternPages.Proofs.Writing
import PatternPages.Properties
import PatternPages.Record
import PatternPages.SourceTree
import PatternPages.Text.Blank
import PatternPages.Text.Lines
import PatternPages.Text.Numeral
import PatternPages.Text.Quoted
import PatternPages.Text.Reading
import PatternPages.Text.Utf8
import PatternPages.Text.Visible
import PatternPages.Xml.Character
import PatternPages.Xml.Document
import PatternPages.Xml.Reading
import PatternPages.Xml.Reference
import PatternPages.Xml.Token
import PatternPages.Proofs.PageNames
import PatternPages.Proofs.Directories
import PatternPages.Proofs.Readers
import PatternPages.Proofs.Sheets
import PatternPages.Proofs.Publication
import PatternPages.Proofs.Failures
import PatternPages.Proofs.PageText
import PatternPages.Proofs.Listings
import PatternPages.Proofs.CrossLinks
import PatternPages.Proofs.Reruns
import PatternPages.Proofs.TwoCorpora
import PatternPages.Proofs.FailingMatches
import PatternPages.Proofs.Discovery
import PatternPages.Proofs.Repetition
import PatternPages.Proofs.Contributions
import PatternPages.Proofs.Escapes
import PatternPages.Proofs.Layouts
import PatternPages.Proofs.Spellings
import PatternPages.Proofs.FreshTrees
import PatternPages.Proofs.GreedySelection
import PatternPages.Proofs.KeywordSearch
import PatternPages.Proofs.TokenPlaces
import PatternPages.Proofs.KeywordCover
import PatternPages.Proofs.KeywordSeams
import PatternPages.Proofs.Arena
import PatternPages.Proofs.SyntaxTrees
import PatternPages.Proofs.Enlargement
import PatternPages.Proofs.Supports
import PatternPages.Proofs.ModeKeys
import PatternPages.Proofs.NodeForms
import PatternPages.Proofs.NodeReading
import PatternPages.Proofs.ByteOffsets
import PatternPages.Proofs.Insertions
import PatternPages.Proofs.EscapePairs
