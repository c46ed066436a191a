import ScriptDoc.Log.Pattern
import ScriptDoc.Main
import ScriptDoc.Service
import ScriptDoc.Symbol.Registry
import ScriptDoc.Token.Basic
import ScriptDoc.Proofs.Resolution.Linking
import ScriptDoc.Proofs.Resolution.Members
import ScriptDoc.Proofs.Resolution.Selection
import ScriptDoc.Proofs.Outline.Nesting
import ScriptDoc.Proofs.Outline.Statements
import ScriptDoc.Proofs.Token.Placement
import ScriptDoc.Proofs.Token.Locality
import ScriptDoc.Proofs.Token.BlankLines
import ScriptDoc.Proofs.Resolution.Files
import ScriptDoc.Proofs.Resolution.BlankLines
import ScriptDoc.Proofs.DocComment.Values
import ScriptDoc.Proofs.Outline.Origins
import ScriptDoc.Proofs.Outline.Lines
import ScriptDoc.Proofs.Token.Concatenation
import ScriptDoc.Proofs.Token.Pieces
import ScriptDoc.Proofs.Resolution.Names
import ScriptDoc.Proofs.Resolution.LiteralKeys
import ScriptDoc.Proofs.DocComment.LineEnds
import ScriptDoc.Proofs.Token.LineEnds
import ScriptDoc.Proofs.Outline.Likeness
import ScriptDoc.Proofs.Resolution.LineEnds
import ScriptDoc.Proofs.Json.Fields
import ScriptDoc.Proofs.Options.Acceptance
import ScriptDoc.Proofs.Outline.Faults
import ScriptDoc.Proofs.Resolution.Faults
import ScriptDoc.Proofs.Service.Resolve
import ScriptDoc.Proofs.Resolution.FullNames
import ScriptDoc.Proofs.Outline.Comments
import ScriptDoc.Proofs.FileTree.Changes
import ScriptDoc.Proofs.Publication.Files
import ScriptDoc.Proofs.Command.Outcome
import ScriptDoc.Proofs.Text.Lines
import ScriptDoc.Proofs.Token.Grammar
import ScriptDoc.Proofs.Token.Classes
import ScriptDoc.Proofs.Token.Truncation
import ScriptDoc.Proofs.TagSet.Log
import ScriptDoc.Proofs.DocComment.RoundTrip
import ScriptDoc.Proofs.DocComment.Delimiters
import ScriptDoc.Proofs.Resolution.Documented
import ScriptDoc.Proofs.Path.NormalForm
import ScriptDoc.Proofs.Sources.Search
import ScriptDoc.Proofs.Sources.Exactness
import ScriptDoc.Proofs.Publication.Apart
import ScriptDoc.Proofs.Outline.Segments
import ScriptDoc.Proofs.Outline.ScopeOrder
import ScriptDoc.Proofs.Options.RoundTrip
import ScriptDoc.Proofs.Json.Strings
import ScriptDoc.Proofs.Json.Layouts
import ScriptDoc.Proofs.Publication.ReadBack
import ScriptDoc.Proofs.MemberPath.Segments
import ScriptDoc.Proofs.TagSet.Runs
