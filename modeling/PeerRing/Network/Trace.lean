import PeerRing.Network.Session
import PeerRing.Message.Codec
import PeerRing.Json.Print
/-! # Traces of a network

The JSON form of what happens on a network: each send with its outcome, each message a
receiver refused, each delivered payload, and a node's routing view. A step's sends and
deliveries are reported as sets, each sorted by its canonical text, since only the order of
work within one node is meaningful.
-/
namespace PeerRing.Network

open Json

/-- The JSON object of a message error. -/
def errorJson (e : Message.Error) : Value :=
  let msg := match e.message? with
    | some m => [("message", Value.str m)]
    | none => []
  .obj ([("error", .str ("MessageError::" ++ e.kindName))] ++ msg)

/-- The JSON form of an event. -/
def Event.toJson : Event → Value
  | .sent src dst ok msg =>
    .obj [("from", .str src.toText), ("to", .str dst.toText), ("ok", .bool ok), ("msg", msg.toJson)]
  | .refused a e => .obj [("handle_error_at", .str a.toText), ("error", errorJson e)]

/-- The JSON form of a delivery. -/
def Delivery.toJson (d : Delivery) : Value :=
  .obj [("at", .str d.receiver.toText), ("source", .str d.source.toHex),
    ("destination", .str d.destination.toHex), ("payload", .str d.payload)]

/-- Values sorted by their canonical text. -/
def sortCanonical (vs : List Value) : List Value :=
  ((vs.map fun v => (v.canonical, v)).mergeSort fun a b => !(b.1 < a.1)).map (·.2)

end PeerRing.Network

namespace PeerRing

open Json

/-- A node's routing view: its own host, both leafset sides and the table entries, as host
texts, and whether stabilization runs. -/
def Node.viewJson (n : Node) : Value :=
  let texts (hs : List Host.Id) : Value := .ofStrs (hs.map n.reg.encode)
  .obj [("me", .str (n.reg.encode n.me)),
    ("cw", texts (n.routing.leafset.cw.map (·.host))),
    ("ccw", texts (n.routing.leafset.ccw.map (·.host))),
    ("rt", texts n.tableHosts), ("started", .bool n.started)]

end PeerRing
