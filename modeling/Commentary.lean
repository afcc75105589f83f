import Commentary.Borrowing
import Commentary.Catalog
import Commentary.Cli.Options
import Commentary.Cli.Program
import Commentary.Comment
import Commentary.Config
import Commentary.Doclet.Basic
import Commentary.Doclet.Effect
import Commentary.Doclet.Json
import Commentary.Doclet.Resolve
import Commentary.Files.Host
import Commentary.Files.Pattern
import Commentary.Files.Search
import Commentary.Files.Tree
import Commentary.Inheritance.Graph
import Commentary.Inheritance.Pass
import Commentary.Json.Basic
import Commentary.Json.Fields
import Commentary.Json.Reader
import Commentary.Json.Token
import Commentary.Longname.Basic
import Commentary.Longname.Normal
import Commentary.Longname.Scope
import Commentary.Longname.Token
import Commentary.Main
import Commentary.Notice
import Commentary.Overload
import Commentary.Path
import Commentary.Render.Anchor
import Commentary.Render.Format
import Commentary.Render.Markdown
import Commentary.Run
import Commentary.Script.Declaration
import Commentary.Script.Reader
import Commentary.Script.Scan
import Commentary.Session
import Commentary.Symbol
import Commentary.Table
import Commentary.Tag.Basic
import Commentary.Tag.Body
import Commentary.Tag.Definition
import Commentary.Tag.Dictionary
import Commentary.Tag.Sets
import Commentary.Text.Blank
import Commentary.Text.Case
import Commentary.Text.CharRange
import Commentary.Text.Letter
import Commentary.Text.Lines
import Commentary.Text.Quote
import Commentary.Text.Split
import Commentary.TypeExpr.Node
import Commentary.TypeExpr.Parser
import Commentary.TypeExpr.Token
import Commentary.Proofs.TableKeys
import Commentary.Proofs.CatalogIndex
import Commentary.Proofs.OverloadStep
import Commentary.Proofs.OverloadRun
import Commentary.Proofs.Passes
import Commentary.Proofs.Dependencies
import Commentary.Proofs.SessionRun
import Commentary.Proofs.LongnameTokens
import Commentary.Proofs.NormalSpelling
import Commentary.Proofs.LongnameParts
import Commentary.Proofs.DependencyOrder
import Commentary.Proofs.InheritedMembers
import Commentary.Proofs.CommentLayout
import Commentary.Proofs.MemberPaths
import Commentary.Proofs.QuotedNames
import Commentary.Proofs.TagLookup
import Commentary.Proofs.Resolving
import Commentary.Proofs.MemberSpellings
import Commentary.Proofs.ResolveTwice
import Commentary.Proofs.VariedNames
import Commentary.Proofs.WellPlaced
import Commentary.Proofs.OverloadPlaces
import Commentary.Proofs.FinishedRuns
import Commentary.Proofs.OriginalDoclets
import Commentary.Proofs.BorrowAccount
import Commentary.Proofs.BorrowedNames
import Commentary.Proofs.ScannedComments
import Commentary.Proofs.TypeTokens
import Commentary.Proofs.TypeReaders
import Commentary.Proofs.TypeReading
import Commentary.Proofs.CanonicalTypes
import Commentary.Proofs.TypeGrammar
import Commentary.Proofs.TypeGroups
import Commentary.Proofs.ExactTypes
import Commentary.Proofs.TypeNames
import Commentary.Proofs.JsonTokens
import Commentary.Proofs.JsonValues
import Commentary.Proofs.DocletFields
import Commentary.Proofs.PassTurns
import Commentary.Proofs.InheritedClosure
import Commentary.Proofs.MixedMembers
import Commentary.Proofs.LinkedMembers
import Commentary.Proofs.RecordedOverrides
import Commentary.Proofs.NamespaceMarks
import Commentary.Proofs.TrailingVariations
import Commentary.Proofs.TagFrames
import Commentary.Proofs.NamespaceKinds
import Commentary.Proofs.CodeNames
import Commentary.Proofs.AnchorNumbers
import Commentary.Proofs.SectionPlaces
import Commentary.Proofs.EnclosedTypes
import Commentary.Proofs.ArrayTypes
import Commentary.Proofs.TagBodies
import Commentary.Proofs.TagLedgers
import Commentary.Proofs.ExampleCode
import Commentary.Proofs.NonblankText
import Commentary.Proofs.RelationNames
import Commentary.Proofs.UnknownTags
import Commentary.Proofs.NestedBlocks
import Commentary.Proofs.TagTitles
import Commentary.Proofs.CollidingNames
import Commentary.Proofs.OwnerChains
import Commentary.Proofs.RecursionDepth
import Commentary.Proofs.NestedTags
import Commentary.Proofs.TypePlaces
import Commentary.Proofs.TypeProgress
import Commentary.Proofs.InsertedLines
