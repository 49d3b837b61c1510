import PeerRing.Text.Blank
import PeerRing.Text.Printable
import PeerRing.Text.Grapheme
import PeerRing.Text.Escape
import PeerRing.Text.Hex
import PeerRing.Key.Basic
import PeerRing.Key.Text
import PeerRing.Decimal.Shortest
import PeerRing.Decimal.Text
import PeerRing.Json.Value
import PeerRing.Json.Print
import PeerRing.Json.Parse
import PeerRing.Message.Kind
import PeerRing.Digest.Blake3
import PeerRing.Key.Hash
import PeerRing.Net.SocketAddr
import PeerRing.Host.Addr
import PeerRing.Host.Stats
import PeerRing.Host.Record
import PeerRing.Host.Cache
import PeerRing.Message.Basic
import PeerRing.Message.Codec
import PeerRing.Frame
import PeerRing.Overlay.Leafset
import PeerRing.Overlay.Table
import PeerRing.Overlay.Routing
import PeerRing.Config.Basic
import PeerRing.Node.Basic
import PeerRing.Node.Status
import PeerRing.Network.World
import PeerRing.Network.Handlers
import PeerRing.Network.Stabilize
import PeerRing.Network.Clock
import PeerRing.Network.Session
import PeerRing.Network.Trace
import PeerRing.Decimal.Nearest
import PeerRing.Toml.Value
import PeerRing.Toml.Scalar
import PeerRing.Toml.Parse
import PeerRing.Config.Read
import PeerRing.Config.Resolve
import PeerRing.Daemon.Loopback
import PeerRing.Daemon.Transport
import PeerRing.Main
import PeerRing.Proofs.Key.Bytes
import PeerRing.Proofs.Key.Modular
import PeerRing.Proofs.Key.Distance
import PeerRing.Proofs.Key.Prefix
import PeerRing.Proofs.Text.Digits
import PeerRing.Proofs.Key.Text
import PeerRing.Proofs.Key.Numeral
import PeerRing.Proofs.Json.Read
import PeerRing.Proofs.Message.Codec
import PeerRing.Proofs.Frame
import PeerRing.Proofs.Overlay.Slots
import PeerRing.Proofs.Overlay.Sides
import PeerRing.Proofs.Overlay.Closest
import PeerRing.Proofs.Overlay.Delivery
import PeerRing.Proofs.Host.Registry
import PeerRing.Proofs.Overlay.Invariant
import PeerRing.Proofs.Overlay.Admission
import PeerRing.Proofs.Overlay.Idempotence
import PeerRing.Proofs.Overlay.Forwarding
import PeerRing.Proofs.Overlay.Span
import PeerRing.Proofs.Overlay.Fallback
import PeerRing.Proofs.Overlay.Homes
import PeerRing.Proofs.Host.Cache
import PeerRing.Proofs.Host.Text
import PeerRing.Proofs.Host.Lru
import PeerRing.Proofs.Host.Window
import PeerRing.Proofs.Node.Knowledge
import PeerRing.Proofs.Node.Identity
import PeerRing.Proofs.Network.Transport
import PeerRing.Proofs.Network.Handlers
import PeerRing.Proofs.Network.Stabilize
import PeerRing.Proofs.Network.Join
import PeerRing.Proofs.Network.Identity
import PeerRing.Proofs.Network.Idempotence
import PeerRing.Proofs.Daemon.Transport
