import ProgramDiagram.Main
import ProgramDiagram.CommandLine.World
import ProgramDiagram.Proofs.Outline.Blocks
import ProgramDiagram.Proofs.Outline.Passage
import ProgramDiagram.Proofs.Outline.Placement
import ProgramDiagram.Proofs.Outline.Listing
import ProgramDiagram.Proofs.Outline.Grammar
import ProgramDiagram.Proofs.Text.Lines
import ProgramDiagram.Proofs.Outline.Recovery
import ProgramDiagram.Proofs.Outline.RoundTrip
import ProgramDiagram.Proofs.Outline.Reached
import ProgramDiagram.Proofs.Diagram.Subtrees
import ProgramDiagram.Proofs.Outline.WellFormed
import ProgramDiagram.Proofs.Outline.Errors
import ProgramDiagram.Proofs.Layout.Exact
import ProgramDiagram.Proofs.Layout.Placed
import ProgramDiagram.Proofs.Layout.Inside
import ProgramDiagram.Proofs.Layout.Stacking
import ProgramDiagram.Proofs.Layout.Branching
import ProgramDiagram.Proofs.Layout.Nested
import ProgramDiagram.Proofs.Svg.Elements
import ProgramDiagram.Proofs.Svg.Inventory
import ProgramDiagram.Proofs.Xml.Escaped
import ProgramDiagram.Proofs.Xml.Tags
import ProgramDiagram.Proofs.Xml.Reading
import ProgramDiagram.Proofs.Xml.Scope
import ProgramDiagram.Proofs.Xml.Elements
import ProgramDiagram.Proofs.Xml.Plain
import ProgramDiagram.Proofs.Svg.Documents
import ProgramDiagram.Proofs.Xml.Sound
import ProgramDiagram.Proofs.Xml.Rewritten
import ProgramDiagram.Proofs.Xml.Names
import ProgramDiagram.Proofs.Xml.Content
import ProgramDiagram.Proofs.Xml.Settled
import ProgramDiagram.Proofs.Svg.Forms
import ProgramDiagram.Proofs.Outline.Comments
import ProgramDiagram.Proofs.Outline.Numbers
import ProgramDiagram.Proofs.Outline.Messages
import ProgramDiagram.Proofs.CommandLine.Usage
import ProgramDiagram.Proofs.CommandLine.Files
import ProgramDiagram.Proofs.CommandLine.Effects
import ProgramDiagram.Proofs.CommandLine.Writing
import ProgramDiagram.Proofs.CommandLine.Drawing
import ProgramDiagram.Proofs.CommandLine.Reports
import ProgramDiagram.Proofs.Layout.Comparison
import ProgramDiagram.Proofs.Layout.Unframed
import ProgramDiagram.Proofs.Layout.Sideways
import ProgramDiagram.Proofs.Layout.Clearance
import ProgramDiagram.Proofs.Layout.Alignment
import ProgramDiagram.Proofs.Outline.Breaks
import ProgramDiagram.Proofs.Outline.Embedding
import ProgramDiagram.Proofs.Outline.Composition
import ProgramDiagram.Proofs.Outline.Acceptance
import ProgramDiagram.Proofs.Outline.Switches
import ProgramDiagram.Proofs.Outline.Cases
import ProgramDiagram.Proofs.Outline.FirstOffer
import ProgramDiagram.Proofs.Options.Layers
import ProgramDiagram.Proofs.Json.ReadBack
import ProgramDiagram.Proofs.Json.Condensed
import ProgramDiagram.Proofs.Diagram.Written
import ProgramDiagram.Proofs.Number.Rounding
import ProgramDiagram.Proofs.Number.Texts
import ProgramDiagram.Proofs.Number.Shortest
import ProgramDiagram.Proofs.Number.Value
import ProgramDiagram.Proofs.Number.Halves
import ProgramDiagram.Proofs.Number.Exactness
import ProgramDiagram.Proofs.Number.Repeated
import ProgramDiagram.Proofs.Layout.Finite
import ProgramDiagram.Proofs.Xml.Attributes
import ProgramDiagram.Proofs.Xml.Unescaped
import ProgramDiagram.Proofs.Svg.Numbers
