import TileWorld.Brush.Bake
import TileWorld.Brush.Basic
import TileWorld.Brush.Value
import TileWorld.CommandLine.Arguments
import TileWorld.CommandLine.Config
import TileWorld.CommandLine.Report
import TileWorld.CommandLine.Run
import TileWorld.Fault
import TileWorld.Grid.Basic
import TileWorld.Grid.CellType
import TileWorld.Grid.Nested
import TileWorld.Grid.Sweep
import TileWorld.Grid.View
import TileWorld.Image.Palette
import TileWorld.Image.Png
import TileWorld.Main
import TileWorld.Noise.Field
import TileWorld.Noise.Gradient
import TileWorld.Noise.Lattice
import TileWorld.Number.Decimal
import TileWorld.Number.Dyadic
import TileWorld.Number.Numeral
import TileWorld.Number.Quotient
import TileWorld.Number.Scalar
import TileWorld.Proofs.Baking.Tree
import TileWorld.Proofs.Grid.Update
import TileWorld.Proofs.Number.Arithmetic
import TileWorld.Proofs.Number.Exact
import TileWorld.Proofs.Number.Nearest
import TileWorld.Proofs.Number.Packed
import TileWorld.Proofs.Number.Quotient
import TileWorld.Proofs.Number.Rounded
import TileWorld.Proofs.Number.Stored
import TileWorld.Proofs.Number.Unpacked
import TileWorld.Proofs.Number.Whole
import TileWorld.Proofs.Outcome
import TileWorld.Proofs.Random.Permute
import TileWorld.Proofs.Region.Tiling
import TileWorld.Proofs.Region.Window
import TileWorld.Proofs.Settings.Bounds
import TileWorld.Proofs.Settings.Order
import TileWorld.Proofs.World.Bounds
import TileWorld.Proofs.World.CellRule
import TileWorld.Proofs.World.Climates
import TileWorld.Proofs.World.Inks
import TileWorld.Proofs.World.Layers
import TileWorld.Proofs.World.Roster
import TileWorld.Proofs.World.Sweeping
import TileWorld.Proofs.World.Zones
import TileWorld.Random.Seeding
import TileWorld.Random.Stream
import TileWorld.Region.Context
import TileWorld.Region.Direction
import TileWorld.Region.Interval
import TileWorld.Region.Position
import TileWorld.Region.Shape
import TileWorld.Region.Span
import TileWorld.Sampler.Bake
import TileWorld.Sampler.Basic
import TileWorld.Sampler.Written
import TileWorld.Settings.Basic
import TileWorld.Settings.Check
import TileWorld.Settings.Order
import TileWorld.Settings.Read
import TileWorld.Text.Glyph
import TileWorld.Text.JsonText
import TileWorld.Text.Printable
import TileWorld.Text.Quoted
import TileWorld.World.BiomeMap
import TileWorld.World.Directory
import TileWorld.World.Entry
import TileWorld.World.Event
import TileWorld.World.Generator
import TileWorld.World.Layout
import TileWorld.World.Picture
import TileWorld.World.Preset
import TileWorld.World.Stratum
import TileWorld.World.Terrain
import TileWorld.Proofs.Baking.Moved
import TileWorld.Proofs.Grid.Views
import TileWorld.Proofs.World.Positions
import TileWorld.Proofs.World.Painting
import TileWorld.Proofs.Number.Integers
import TileWorld.Proofs.Noise.Field
import TileWorld.Proofs.Region.Roomy
import TileWorld.Proofs.Baking.Total
import TileWorld.Proofs.Baking.Passes
import TileWorld.Proofs.World.Declared
import TileWorld.Proofs.World.Renaming
import TileWorld.Proofs.World.Repainting
import TileWorld.Proofs.World.Insertion
import TileWorld.Proofs.World.Additions
import TileWorld.Proofs.World.Unreferenced
import TileWorld.Proofs.World.Isolation
import TileWorld.Proofs.World.Rearranging
import TileWorld.Proofs.World.Separation
import TileWorld.Proofs.Grid.Writes
import TileWorld.Proofs.Grid.Runs
import TileWorld.Proofs.Grid.Disjoint
import TileWorld.Proofs.Number.Division
import TileWorld.Proofs.Number.Shares
import TileWorld.Proofs.World.Heights
import TileWorld.Proofs.World.Growth
import TileWorld.Proofs.World.References
import TileWorld.Proofs.World.Layouts
import TileWorld.Proofs.World.Verdict
import TileWorld.Proofs.World.Resolution
import TileWorld.Proofs.Baking.Strokes
import TileWorld.Proofs.Baking.Fusion
import TileWorld.Proofs.World.Palette
import TileWorld.Proofs.Number.Exceptions
import TileWorld.Proofs.Baking.Guards
import TileWorld.Proofs.Region.Axis
import TileWorld.Proofs.Region.Exact
import TileWorld.Proofs.Number.Ratio
import TileWorld.Proofs.Region.Toward
import TileWorld.Proofs.Baking.Strips
import TileWorld.Proofs.Baking.Evaluation
import TileWorld.Proofs.Baking.Selection
import TileWorld.Proofs.Baking.Splits
import TileWorld.Proofs.Baking.UnitRange
import TileWorld.Proofs.Baking.Silhouette
import TileWorld.Proofs.World.Strata
import TileWorld.Proofs.Region.Parts
import TileWorld.Proofs.Grid.Overlaps
import TileWorld.Proofs.World.Weights
import TileWorld.Proofs.Number.Reals
import TileWorld.Proofs.Region.Outline
import TileWorld.Proofs.Image.Lookup
import TileWorld.Proofs.World.Capacity
