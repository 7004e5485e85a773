import ViewHost.Main
import ViewHost.Proofs.Delivery.Notices
import ViewHost.Proofs.Desktop.Positions
import ViewHost.Proofs.Frame.Delivery
import ViewHost.Proofs.Frame.Nesting
import ViewHost.Proofs.Frame.Signals
import ViewHost.Proofs.Geometry.Enclosure
import ViewHost.Proofs.Geometry.Inverse
import ViewHost.Proofs.Host.Commands
import ViewHost.Proofs.Host.Ending
import ViewHost.Proofs.Host.HoverNews
import ViewHost.Proofs.Host.Pulse
import ViewHost.Proofs.Hover.Replay
import ViewHost.Proofs.Readout.Windows
import ViewHost.Proofs.Shortcut.Reentry
import ViewHost.Proofs.Touch.Apart
import ViewHost.Proofs.Touch.Selection
import ViewHost.Proofs.Touch.TargetLoss
import ViewHost.Proofs.Tree.Clipping
import ViewHost.Proofs.Tree.GlobalFrame
import ViewHost.Proofs.Tree.Insertion
import ViewHost.Proofs.Tree.Leaving
import ViewHost.Proofs.Tree.Locality
import ViewHost.Proofs.Tree.Outline
import ViewHost.Proofs.Tree.Projection
import ViewHost.Wire.Modifiers
