import FeatureTree.Text.Blank
import FeatureTree.Text.Lines
import FeatureTree.Text.Layout
import FeatureTree.Json.Double
import FeatureTree.Json.Basic
import FeatureTree.Json.Print
import FeatureTree.Json.Read
import FeatureTree.Fragment.Basic
import FeatureTree.Error
import FeatureTree.Node.Parts
import FeatureTree.Node.Basic
import FeatureTree.Node.Cursor
import FeatureTree.Node.Same
import FeatureTree.Node.Rows
import FeatureTree.Node.Render
import FeatureTree.Markup.Fence
import FeatureTree.Markup.Cells
import FeatureTree.Markup.Mask
import FeatureTree.Source.Basic
import FeatureTree.Source.Tags
import FeatureTree.Source.Comments
import FeatureTree.Source.Rows
import FeatureTree.Source.DocString
import FeatureTree.Dialect.Keywords
import FeatureTree.Dialect.Basic
import FeatureTree.Config
import FeatureTree.Grammar.Tree
import FeatureTree.Grammar.Lexical
import FeatureTree.Grammar.Dedent
import FeatureTree.Grammar.Parse
import FeatureTree.Grammar.Rules
import FeatureTree.Document.Locate
import FeatureTree.Document.Read
import FeatureTree.Fragment.Read
import FeatureTree.Shape.Fields
import FeatureTree.Shape.Elements
import FeatureTree.Shape.Definitions
import FeatureTree.Shape.Messages
import FeatureTree.Shape.Basic
import FeatureTree.Node.Edit
import FeatureTree.Node.Record
import FeatureTree.Files.Path
import FeatureTree.Files.Tree
import FeatureTree.Files.Load
import FeatureTree.Proofs.Related
import FeatureTree.Proofs.Text.Trim
import FeatureTree.Proofs.Text.Lines
import FeatureTree.Proofs.Source.Placed
import FeatureTree.Proofs.Table.ReadBack
import FeatureTree.Proofs.Markup.Escape
import FeatureTree.Proofs.DocString.ReadBack
import FeatureTree.Proofs.Node.Relined
import FeatureTree.Proofs.Shape.Draft
import FeatureTree.Proofs.Shape.Agreement
import FeatureTree.Proofs.Document.Header
import FeatureTree.Proofs.Document.Outcome
import FeatureTree.Proofs.Node.Said
import FeatureTree.Proofs.RoundTrip.Blocks
import FeatureTree.Proofs.RoundTrip.Feature
import FeatureTree.Proofs.Node.Skeleton
import FeatureTree.Proofs.Markup.Masking
import FeatureTree.Proofs.Document.Robust
import FeatureTree.Proofs.Source.Shifted
import FeatureTree.Proofs.Document.Shifted
import FeatureTree.Proofs.RoundTrip.Fixpoint
import FeatureTree.Proofs.Node.RowHistory
import FeatureTree.Proofs.Source.Fences
import FeatureTree.Proofs.Shape.Contents
import FeatureTree.Proofs.Shape.Vetting
import FeatureTree.Proofs.Shape.Tidy
import FeatureTree.Proofs.DocString.Reread
import FeatureTree.Proofs.Text.Normalise
import FeatureTree.Proofs.Node.Preorder
import FeatureTree.Proofs.RoundTrip.Shell
import FeatureTree.Proofs.Table.Fallback
import FeatureTree.Proofs.Table.Alignment
import FeatureTree.Proofs.Document.TagLines
import FeatureTree.Proofs.Node.Composition
import FeatureTree.Proofs.Shape.CommentOrder
import FeatureTree.Proofs.Node.RowOrder
import FeatureTree.Proofs.Document.CommentLines
import FeatureTree.Proofs.Files.ByteOrder
import FeatureTree.Proofs.Files.Walk
import FeatureTree.Proofs.Files.Loading
import FeatureTree.Proofs.Text.Stretch
import FeatureTree.Proofs.Source.LineIndex
import FeatureTree.Proofs.Source.Slices
