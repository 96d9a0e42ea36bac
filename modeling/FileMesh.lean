import FileMesh.Main
import FileMesh.Proofs.Disk.Mapping
import FileMesh.Proofs.Table.FirstWins
import FileMesh.Proofs.Table.Growth
import FileMesh.Proofs.Table.Occupancy
import FileMesh.Proofs.Verification
import FileMesh.Proofs.Verification.Readable
import FileMesh.Proofs.Store
import FileMesh.Proofs.Backing
import FileMesh.Proofs.Delivery
import FileMesh.Proofs.Download
import FileMesh.Proofs.Frames
import FileMesh.Proofs.Wire.Decoded
import FileMesh.Proofs.Path
import FileMesh.Proofs.Path.Join
import FileMesh.Proofs.Disk.Parent
import FileMesh.Proofs.Disk.Housing
import FileMesh.Proofs.Disk.Site
import FileMesh.Proofs.Disk.Making
import FileMesh.Proofs.Sharing
import FileMesh.Proofs.Sharing.Outcome
import FileMesh.Proofs.Request
import FileMesh.Proofs.Transfer
import FileMesh.Proofs.Frame.Reading
import FileMesh.Proofs.Frame.Steady
import FileMesh.Proofs.Frame.Alignment
import FileMesh.Proofs.Frame.Limit
import FileMesh.Proofs.Frame.Ending
import FileMesh.Proofs.Peer.Connection
import FileMesh.Proofs.Peer.Broadcast
import FileMesh.Proofs.Gossip.Mesh
import FileMesh.Proofs.Gossip.Flood
import FileMesh.Proofs.Sited
import FileMesh.Proofs.View
import FileMesh.Proofs.Lodging
import FileMesh.Proofs.Isolation
import FileMesh.Proofs.Completion
import FileMesh.Proofs.Serving
import FileMesh.Proofs.Damage
import FileMesh.Proofs.Malformed
import FileMesh.Proofs.Gossip.Catalog
import FileMesh.Proofs.Peer.Sending
import FileMesh.Proofs.Gossip.Joining
import FileMesh.Proofs.Gossip.Latecomer
import FileMesh.Proofs.Peer.Membership
import FileMesh.Proofs.Admission
import FileMesh.Proofs.Saving
import FileMesh.Proofs.Peer.Reach
import FileMesh.Proofs.Acquisition
import FileMesh.Proofs.Answering
import FileMesh.Proofs.Peer.FanOut
import FileMesh.Proofs.Storing
import FileMesh.Proofs.Opening.Failing
import FileMesh.Proofs.Stopping.Latecomers
import FileMesh.Proofs.Stopping.Continuing
import FileMesh.Proofs.Stopping.Interleaving
import FileMesh.Proofs.Geometry
import FileMesh.Proofs.Confinement
import FileMesh.Proofs.Download.Running
import FileMesh.Proofs.Download.Calls
import FileMesh.Proofs.ReturnAddress
import FileMesh.Proofs.Settings
