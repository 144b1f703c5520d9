import SlotGrid.Session.Run
import SlotGrid.Sizing.Exact
import SlotGrid.Sizing.Table
import SlotGrid.Template.IndexedSlots
import SlotGrid.Proofs.Template.Reading
import SlotGrid.Proofs.Checked
import SlotGrid.Proofs.Template.Growth
import SlotGrid.Proofs.Template.Rectangles
import SlotGrid.Proofs.Template.Partition
import SlotGrid.Proofs.Sizing.Exact
import SlotGrid.Proofs.Sizing.Widening
import SlotGrid.Proofs.Sizing.Grid
import SlotGrid.Proofs.Sizing.Columns
import SlotGrid.Proofs.Sizing.Rows
import SlotGrid.Proofs.Sizing.Reached
import SlotGrid.Proofs.Sizing.ColumnWidths
import SlotGrid.Proofs.Sizing.RowHeights
import SlotGrid.Proofs.Sizing.Repeated
import SlotGrid.Proofs.Sizing.FittedRows
import SlotGrid.Proofs.Sizing.Tiling
import SlotGrid.Proofs.Style.Frames
import SlotGrid.Proofs.Style.Lexemes
import SlotGrid.Proofs.Style.Templates
import SlotGrid.Proofs.Session.Run
import SlotGrid.Proofs.Style.Lockstep
import SlotGrid.Proofs.Style.Boundary
import SlotGrid.Proofs.Style.FirstRule
import SlotGrid.Proofs.Style.Declarations
import SlotGrid.Proofs.Style.Blocks
import SlotGrid.Proofs.Style.Recovery
import SlotGrid.Proofs.Document.Moves
import SlotGrid.Proofs.Document.Reuse
import SlotGrid.Proofs.Document.Relayout
import SlotGrid.Proofs.Session.Rerun
import SlotGrid.Proofs.Document.Edits
import SlotGrid.Proofs.Session.Registry
import SlotGrid.Proofs.Session.Joined
import SlotGrid.Proofs.Session.Query
import SlotGrid.Proofs.Style.Recognition
import SlotGrid.Proofs.Style.Declared
import SlotGrid.Proofs.Style.Numbers
import SlotGrid.Proofs.Session.Links
import SlotGrid.Proofs.Style.Cut
import SlotGrid.Proofs.Style.Settled
import SlotGrid.Proofs.Style.Spaced
import SlotGrid.Proofs.Style.Definition
import SlotGrid.Proofs.Style.Stored
import SlotGrid.Proofs.Style.Figures
import SlotGrid.Proofs.Style.Printed
import SlotGrid.Proofs.Style.Reread
import SlotGrid.Proofs.Session.Printed
import SlotGrid.Proofs.Sizing.ColumnExtents
import SlotGrid.Proofs.Style.Positions
import SlotGrid.Proofs.Document.Creation
import SlotGrid.Proofs.Session.Placement
import SlotGrid.Proofs.Session.Containers
import SlotGrid.Proofs.Session.Dropped
import SlotGrid.Proofs.Style.DefinitionGrammar
import SlotGrid.Proofs.Session.AtRules
import SlotGrid.Proofs.Style.Names
import SlotGrid.Proofs.Style.Loops
import SlotGrid.Proofs.Sizing.Rounds
import SlotGrid.Proofs.Template.Completion
import SlotGrid.Proofs.Style.Literals
import SlotGrid.Proofs.Style.Identifiers
import SlotGrid.Proofs.Document.Preorder
import SlotGrid.Proofs.Document.Chains
import SlotGrid.Proofs.Document.Compounds
import SlotGrid.Proofs.Document.Placing
import SlotGrid.Proofs.Document.SlotElements
import SlotGrid.Proofs.Document.SlotWidths
import SlotGrid.Proofs.Session.Nesting
import SlotGrid.Proofs.Text.Wrapping
import SlotGrid.Proofs.Template.Lookups
import SlotGrid.Proofs.Sizing.TallSlots
import SlotGrid.Proofs.Template.Offers
import SlotGrid.Proofs.Template.IndexedSlots
import SlotGrid.Proofs.Style.Redeclared
