import MeshNode.Addressing
import MeshNode.Admin.Api
import MeshNode.Advertiser.Segment
import MeshNode.Catalog
import MeshNode.Control
import MeshNode.Daemon
import MeshNode.Links.Table
import MeshNode.Loopback.Links
import MeshNode.Loopback.Peering
import MeshNode.Main
import MeshNode.Ndp.Decode
import MeshNode.Ndp.Encode
import MeshNode.Peering.Service
import MeshNode.Proofs.Addressing.Collisions
import MeshNode.Proofs.Admin.Api
import MeshNode.Proofs.Admin.Registry
import MeshNode.Proofs.Advertiser.Intervals
import MeshNode.Proofs.Advertiser.Listening
import MeshNode.Proofs.Advertiser.Marking
import MeshNode.Proofs.Control.Outcomes
import MeshNode.Proofs.Daemon.Nodes
import MeshNode.Proofs.Dialling
import MeshNode.Proofs.Json.RoundTrip
import MeshNode.Proofs.Json.Shape
import MeshNode.Proofs.Links.Acts
import MeshNode.Proofs.Links.Ownership
import MeshNode.Proofs.Ndp.Chaining
import MeshNode.Proofs.Ndp.Refusals
import MeshNode.Proofs.Ndp.Reserved
import MeshNode.Proofs.Ndp.RoundTrip
import MeshNode.Proofs.Peering.Candidates
import MeshNode.Proofs.Peering.Completion
import MeshNode.Proofs.Peering.LinkLocal
import MeshNode.Proofs.Peering.Overtaking
import MeshNode.Proofs.Peering.Rounds
import MeshNode.Proofs.Settings.Layers
import MeshNode.Proofs.Settings.NodeKey
import MeshNode.Proofs.Settings.Upkeep
import MeshNode.Proofs.Socks.Replies
import MeshNode.Proofs.Socks.Requests
import MeshNode.Proxy
import MeshNode.Settings.Layers
import MeshNode.Socks.Session
import MeshNode.Proofs.Catalog
import MeshNode.Proofs.CommandLine
import MeshNode.Proofs.Ndp.Bounds
import MeshNode.Proofs.Url.RoundTrip
import MeshNode.Proofs.NewSettings
