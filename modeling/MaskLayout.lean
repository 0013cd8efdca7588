import MaskLayout.Arena.Basic
import MaskLayout.Arena.Key
import MaskLayout.Arena.Lemmas
import MaskLayout.Arena.Slot
import MaskLayout.Binary64.Angle
import MaskLayout.Binary64.Parts
import MaskLayout.Binary64.Root
import MaskLayout.Binary64.Scalar
import MaskLayout.Cif.Command
import MaskLayout.Cif.Compile
import MaskLayout.Cif.Draft
import MaskLayout.Cif.Error
import MaskLayout.Cif.Fragment
import MaskLayout.Cif.Program
import MaskLayout.Cif.Settings
import MaskLayout.Cif.Writer
import MaskLayout.Decimal.Basic
import MaskLayout.Decimal.Shortest
import MaskLayout.Geometry.Box
import MaskLayout.Geometry.Decomposition
import MaskLayout.Geometry.Layers
import MaskLayout.Geometry.Point
import MaskLayout.Geometry.Polygon
import MaskLayout.Geometry.Transform
import MaskLayout.Json.Basic
import MaskLayout.Json.Decoder
import MaskLayout.Json.Numeral
import MaskLayout.Json.Parse
import MaskLayout.Json.Quoted
import MaskLayout.Json.Reading
import MaskLayout.Json.Token
import MaskLayout.LayerMap
import MaskLayout.Layout.Basic
import MaskLayout.Layout.Chain
import MaskLayout.Layout.Error
import MaskLayout.Layout.Flatten
import MaskLayout.Layout.Node
import MaskLayout.Layout.Reference
import MaskLayout.Layout.Validation
import MaskLayout.NameTable
import MaskLayout.Saved.Arena
import MaskLayout.Saved.Geometry
import MaskLayout.Saved.Layout
import MaskLayout.Saved.Settings
import MaskLayout.Scalar
import MaskLayout.Proofs.Arena.Entries
import MaskLayout.Proofs.Layout.Hierarchy
import MaskLayout.Proofs.Outcome
import MaskLayout.Proofs.LayerMap
import MaskLayout.Proofs.LayerMap.Brackets
import MaskLayout.Proofs.Layout.Validation
import MaskLayout.Proofs.Arena.Generations
import MaskLayout.Proofs.Layout.Runs
import MaskLayout.Proofs.BreadthFirst
import MaskLayout.Proofs.Cif.Outline
import MaskLayout.Proofs.Cif.Numbering
import MaskLayout.Proofs.Cif.Drawing
import MaskLayout.Proofs.Cif.Depiction
import MaskLayout.Proofs.Cif.Calls
import MaskLayout.Proofs.Cif.WellFormed
import MaskLayout.Proofs.Cif.Marks
import MaskLayout.Proofs.Cif.Ways
import MaskLayout.Proofs.Cif.Expansion
import MaskLayout.Proofs.Cif.Success
import MaskLayout.Proofs.Cif.Agreement
import MaskLayout.Proofs.Cif.Plan
import MaskLayout.Proofs.Cif.Invariance
import MaskLayout.Proofs.Binary64.Rounding
import MaskLayout.Proofs.Decimal
import MaskLayout.Proofs.Json.Numerals
import MaskLayout.Proofs.Json.Reading
import MaskLayout.Proofs.Json.Restoring
import MaskLayout.Proofs.Saved.Geometry
import MaskLayout.Proofs.Saved.Arena
import MaskLayout.Proofs.Saved.Layout
import MaskLayout.Proofs.Saved.Loading
import MaskLayout.Proofs.Cif.Stacking
import MaskLayout.Proofs.Layout.Termination
import MaskLayout.Proofs.Cif.Termination
import MaskLayout.Proofs.Cif.Strictness
import MaskLayout.Proofs.Saved.Sessions
import MaskLayout.Proofs.Saved.Keys
import MaskLayout.Proofs.Layout.Closedness
import MaskLayout.Proofs.Cif.Closedness
import MaskLayout.Proofs.Cif.Retention
import MaskLayout.Proofs.Cif.Grammar
import MaskLayout.Proofs.Cif.Reading
import MaskLayout.Proofs.Layout.Names
import MaskLayout.Proofs.Layout.Stack
import MaskLayout.Proofs.Layout.Descent
import MaskLayout.Proofs.Layout.Recursion
import MaskLayout.Proofs.Exact
import MaskLayout.Proofs.Layout.Motion
import MaskLayout.Proofs.Cif.Motion
import MaskLayout.Proofs.Cif.Carrying
import MaskLayout.Proofs.Cif.Suffixes
import MaskLayout.Proofs.Cif.Placing
import MaskLayout.Proofs.Layout.Peeling
import MaskLayout.Proofs.Layout.Extent
