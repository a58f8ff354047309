import FlowTree.Command.Run
import FlowTree.Main
import FlowTree.Proofs.Paths
import FlowTree.Proofs.Identity
import FlowTree.Proofs.Exact
import FlowTree.Proofs.Tidy.Spread
import FlowTree.Proofs.Tidy.Outline
import FlowTree.Proofs.Tidy.Frame
import FlowTree.Proofs.Tidy.Forest
import FlowTree.Proofs.Tidy.Room
import FlowTree.Proofs.Scene.Keys
import FlowTree.Proofs.Scene.Passes
import FlowTree.Proofs.Hierarchy.Changes
import FlowTree.Proofs.Hierarchy.Spots
import FlowTree.Proofs.Reconcile
import FlowTree.Proofs.Session.Agreement
import FlowTree.Proofs.Scene.Rest
import FlowTree.Proofs.Hierarchy.Places
import FlowTree.Proofs.Session.Portrait
import FlowTree.Proofs.Hierarchy.Drawn
import FlowTree.Proofs.Session.History
import FlowTree.Proofs.Scene.Commute
import FlowTree.Proofs.Plan
import FlowTree.Proofs.Hierarchy.Lineage
import FlowTree.Proofs.Kin
import FlowTree.Proofs.Session.Kin
import FlowTree.Proofs.Scene.Glue
import FlowTree.Proofs.Attachment
import FlowTree.Proofs.Session.Attachment
import FlowTree.Proofs.Hierarchy.Listing
import FlowTree.Proofs.Session.Sound
import FlowTree.Proofs.Session.Toggling
import FlowTree.Proofs.Unread
import FlowTree.Proofs.Session.Unread
import FlowTree.Proofs.Session.Arena
import FlowTree.Proofs.Session.Restyling
import FlowTree.Proofs.Session.Repeating
import FlowTree.Proofs.Session.Resolving
import FlowTree.Proofs.Session.Pictures
import FlowTree.Proofs.Inscription
import FlowTree.Proofs.Drawing
import FlowTree.Proofs.Session.Lockstep
import FlowTree.Proofs.Hierarchy.Bounds
import FlowTree.Proofs.Confinement
import FlowTree.Proofs.Session.Confinement
import FlowTree.Proofs.Scale
import FlowTree.Proofs.Session.Widths
import FlowTree.Proofs.Hierarchy.Reached
import FlowTree.Proofs.Session.Refusals
import FlowTree.Proofs.Tidy.Edge
import FlowTree.Proofs.Tidy.Thrust
import FlowTree.Proofs.Tidy.Closed
import FlowTree.Proofs.Mirror
import FlowTree.Proofs.Tidy.Mirror
import FlowTree.Proofs.Hierarchy.Mirror
import FlowTree.Proofs.Arena.Checked
import FlowTree.Proofs.Arena.Walk
import FlowTree.Proofs.Arena.Folding
import FlowTree.Proofs.Arena.Growth
import FlowTree.Proofs.Arena.Placing
import FlowTree.Proofs.Arena.Spots
import FlowTree.Proofs.Arena.Exchange
import FlowTree.Proofs.Arena.Reconciling
import FlowTree.Proofs.Arena.Session
import FlowTree.Proofs.Tidy.Subtrees
import FlowTree.Proofs.Arena.Coordinates
import FlowTree.Proofs.Guarded
import FlowTree.Proofs.Tidy.Guarded
import FlowTree.Proofs.Hierarchy.Ends
import FlowTree.Proofs.Hierarchy.Guarded
import FlowTree.Proofs.Hierarchy.Spacing
import FlowTree.Proofs.Hierarchy.Pruned
import FlowTree.Proofs.Arena.Edits
import FlowTree.Proofs.Arena.Pruning
import FlowTree.Proofs.Scene.Time
import FlowTree.Proofs.Scene.Continuity
import FlowTree.Proofs.Markup.Picture
import FlowTree.Proofs.Markup.Configured
import FlowTree.Proofs.Session.Targets
import FlowTree.Proofs.Arena.FirstWalk
import FlowTree.Proofs.Arena.Ramps
