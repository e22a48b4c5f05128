import KeyLight.Text.Utf8
import KeyLight.Color.Palette
import KeyLight.Color.Json
import KeyLight.Animation.Interpolator
import KeyLight.Layout.Json
import KeyLight.Layout.Target
import KeyLight.Config
import KeyLight.Script.Heap
import KeyLight.Script.Fault
import KeyLight.Machine.Step
import KeyLight.Environment.Basic
import KeyLight.Main
import KeyLight.Native.Exchange
import KeyLight.Scheduler.Tick
import KeyLight.Proofs.Environment.History
import KeyLight.Proofs.Scheduler.Accounting
import KeyLight.Proofs.Scheduler.Numbering
import KeyLight.Proofs.Scheduler.Order
import KeyLight.Proofs.Scheduler.Waking
import KeyLight.Proofs.Scheduler.Delivery
import KeyLight.Proofs.Environment.Failures
import KeyLight.Proofs.Environment.Poison
import KeyLight.Proofs.World.Plain
import KeyLight.Proofs.Machine.Plain
import KeyLight.Proofs.Machine.Yield
import KeyLight.Proofs.World.Turn
import KeyLight.Proofs.Environment.Suspension
import KeyLight.Proofs.World.Callback
import KeyLight.Proofs.World.Nodes
import KeyLight.Proofs.World.Confinement
import KeyLight.Proofs.Machine.Confinement
import KeyLight.Proofs.Host.Rows
import KeyLight.Proofs.World.Footprint
import KeyLight.Proofs.World.Reach
import KeyLight.Proofs.Environment.Capability
import KeyLight.Proofs.World.Retention
import KeyLight.Proofs.Scheduler.Leaving
import KeyLight.Proofs.Environment.Collection
import KeyLight.Proofs.Host.Change
import KeyLight.Proofs.World.Stale
import KeyLight.Proofs.World.Lease
import KeyLight.Proofs.World.Replace
import KeyLight.Proofs.Machine.Replace
import KeyLight.Proofs.Environment.Lease
import KeyLight.Proofs.World.Asking
import KeyLight.Proofs.Machine.Refusal
import KeyLight.Proofs.Environment.Globals
import KeyLight.Proofs.Environment.Keys
import KeyLight.Proofs.Layout.RoundTrip
import KeyLight.Proofs.CommandLine.Failures
import KeyLight.Proofs.World.Handover
import KeyLight.Proofs.Color.Literal
import KeyLight.Proofs.Color.RoundTrip
import KeyLight.Proofs.Color.Palette
import KeyLight.Proofs.Color.Lookup
import KeyLight.Proofs.Number.Integer
import KeyLight.Proofs.Color.Order
import KeyLight.Proofs.Machine.Position
import KeyLight.Proofs.Environment.Position
import KeyLight.Proofs.Machine.Painting
import KeyLight.Proofs.Text.Utf8
import KeyLight.Proofs.Text.Joining
import KeyLight.Proofs.World.Comparison
import KeyLight.Proofs.Machine.Comparison
import KeyLight.Proofs.Machine.Membership
import KeyLight.Proofs.Machine.Naming
import KeyLight.Proofs.Machine.Printing
import KeyLight.Proofs.Environment.Membership
import KeyLight.Proofs.Environment.Naming
import KeyLight.Proofs.Environment.Printing
import KeyLight.Proofs.Environment.Fading
import KeyLight.Proofs.Machine.Coloring
import KeyLight.Proofs.Environment.Waiting
import KeyLight.Proofs.Animation.Target
import KeyLight.Proofs.Animation.Segment
import KeyLight.Proofs.Environment.Elapsed
import KeyLight.Proofs.Native.Exchange
import KeyLight.Proofs.Native.Balance
import KeyLight.Proofs.Color.Blending
