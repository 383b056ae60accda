import XmlScript.Main
import XmlScript.Script.Copy
import XmlScript.Script.Draft
import XmlScript.Proofs.Literal
import XmlScript.Proofs.Except
import XmlScript.Proofs.Grammar
import XmlScript.Proofs.Parser
import XmlScript.Proofs.Trim
import XmlScript.Proofs.Canonical
import XmlScript.Proofs.Joined
import XmlScript.Proofs.Viable
import XmlScript.Proofs.Position
import XmlScript.Proofs.Entry
import XmlScript.Proofs.Linked
import XmlScript.Proofs.Edit
import XmlScript.Proofs.Reading
import XmlScript.Proofs.Planting
import XmlScript.Proofs.WellFormed
import XmlScript.Proofs.Stack
import XmlScript.Proofs.Refusal
import XmlScript.Proofs.Attributes
import XmlScript.Proofs.Subtree
import XmlScript.Proofs.Upsert
import XmlScript.Proofs.Growth
import XmlScript.Proofs.Contents
import XmlScript.Proofs.Normal
import XmlScript.Proofs.Copied
import XmlScript.Proofs.Copy
import XmlScript.Proofs.Cut
import XmlScript.Proofs.Pieces
import XmlScript.Proofs.Legible
import XmlScript.Proofs.Written
import XmlScript.Proofs.Runs
import XmlScript.Proofs.Sections
import XmlScript.Proofs.Layout
import XmlScript.Proofs.JsonValue
import XmlScript.Proofs.JsonScript
import XmlScript.Proofs.Locality
import XmlScript.Proofs.Segments
import XmlScript.Proofs.Indentation
import XmlScript.Proofs.Prefixes
import XmlScript.Proofs.Defaults
import XmlScript.Proofs.Scopes
import XmlScript.Proofs.Tags
import XmlScript.Proofs.Places
import XmlScript.Proofs.StartTags
import XmlScript.Proofs.Reread
import XmlScript.Proofs.Readback
import XmlScript.Proofs.Division
import XmlScript.Proofs.Report
import XmlScript.Proofs.Fragment
import XmlScript.Proofs.Spans
import XmlScript.Proofs.Reference
import XmlScript.Proofs.Wrapping
import XmlScript.Proofs.Removal
import XmlScript.Proofs.Descent
import XmlScript.Proofs.OwnText
import XmlScript.Proofs.Matching
import XmlScript.Proofs.Retext
import XmlScript.Proofs.SetText
import XmlScript.Proofs.Computed
import XmlScript.Proofs.Prolog
import XmlScript.Proofs.Containers
import XmlScript.Proofs.Path
import XmlScript.Proofs.Reproduction
import XmlScript.Proofs.KeptText
import XmlScript.Proofs.KeptAttributes
import XmlScript.Proofs.Declaration
import XmlScript.Proofs.Names
import XmlScript.Proofs.Declared
import XmlScript.Proofs.Namespace
import XmlScript.Proofs.OfTrees
import XmlScript.Proofs.Marks
import XmlScript.Proofs.Taken
import XmlScript.Proofs.Accepted
import XmlScript.Proofs.Sprouted
import XmlScript.Proofs.Instructions
import XmlScript.Proofs.Draft
import XmlScript.Proofs.Once
import XmlScript.Proofs.Listing
import XmlScript.Proofs.Layers
