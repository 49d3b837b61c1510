import PeerRing.Overlay.Table
/-! # Routing state

A node's routing state is its local host, its leafset and its prefix table. A host is offered
to the leafset first and to the table if the leafset declines; it is never in both. A record
that sits somewhere under a key it no longer has is first taken out and then placed again.
Hosts without a key are never routed to.

The next hop towards a key is the local node for its own key, the leafset's definite answer,
the table's definite answer, or else the nearer of the two candidates by clockwise distance to
the key, the leafset's candidate winning a tie only when it is the local node.
-/
namespace PeerRing.Overlay

/-- The routing state of a node. -/
structure Routing where
  me : Host.Id
  leafset : Leafset
  table : Table

namespace Routing

def new (me : Host.Id) (halfSize : Nat) : Routing := ⟨me, Leafset.new me halfSize, Table.new me⟩

/-- Takes out the record `h` if either structure holds it under a key it no longer has;
tells whether it did. -/
def forgetStale (v : PeerView) (r : Routing) (h : Host.Id) : Routing × Bool :=
  if !r.leafset.isStale v h && !r.table.isStale v h then (r, false)
  else ({ r with leafset := (r.leafset.remove v h).1, table := (r.table.remove v h).1 }, true)

/-- Places a host: leafset first, the table if the leafset declines; a host pushed out of the
leafset is offered to the table. -/
def insert (v : PeerView) (r : Routing) (h : Host.Id) : Routing × Bool :=
  if r.leafset.contains (v.key h) then (r, false)
  else
    match r.leafset.add v h with
    | (_, .rejected) =>
      let (t, added) := r.table.add v h
      ({ r with table := t }, added)
    | (ls, adm) =>
      let t := (r.table.remove v h).1
      let t := match adm with
        | .displaced out => (t.add v out).1
        | _ => t
      ({ r with leafset := ls, table := t }, true)

/-- Offers a host; true if anything changed. -/
def add (v : PeerView) (r : Routing) (h : Host.Id) : Routing × Bool :=
  if (v.key h).isZero then (r, false)
  else
    let (r, moved) := r.forgetStale v h
    let (r, inserted) := r.insert v h
    (r, inserted || moved)

/-- Places a host again if it re-keyed since it was added; true if it had to move. -/
def refresh (v : PeerView) (r : Routing) (h : Host.Id) : Routing × Bool :=
  let (r, moved) := r.forgetStale v h
  if !moved then (r, false)
  else if (v.key h).isZero then (r, true)
  else ((r.insert v h).1, true)

/-- Removes a host from both structures, by key or by record. -/
def remove (v : PeerView) (r : Routing) (h : Host.Id) : Routing × Bool :=
  let (ls, fromLeafset) := r.leafset.remove v h
  let (t, fromTable) := r.table.remove v h
  ({ r with leafset := ls, table := t }, fromLeafset || fromTable)

/-- Of a leafset candidate and a table candidate, the one with the shorter clockwise distance
to `k`; on a tie the leafset's only when it is the local node. -/
def nearer (v : PeerView) (me leafBest tableBest : Host.Id) (k : Key) : Host.Id :=
  let leafDist := (v.key leafBest).distance k
  let tableDist := (v.key tableBest).distance k
  if leafDist < tableDist ∨ (leafDist = tableDist ∧ leafBest = me) then leafBest else tableBest

/-- The next hop towards `k`; the local host when it is the closest known node. -/
def routeLookup (v : PeerView) (r : Routing) (k : Key) : Host.Id :=
  if v.key r.me = k then r.me
  else
    match r.leafset.routeLookup v k with
    | .found h => h
    | .closest c =>
      let leafBest := c.getD r.me
      match r.table.routeLookup v k with
      | .found h => h
      | .closest (some tableBest) => nearer v r.me leafBest tableBest k
      | .closest none => leafBest

/-- The table row for the prefix `k` shares with the local key. -/
def rowLookup (v : PeerView) (r : Routing) (k : Key) : List Host.Id :=
  r.table.row ((v.key r.me).keyIndex k)

/-- Switches to a new local host and rebuilds both structures around it; former leafset
members that no longer fit are offered to the table. -/
def keyUpdate (v : PeerView) (r : Routing) (me : Host.Id) : Routing :=
  let (ls, leftOut) := r.leafset.keyUpdate v me
  let t := r.table.keyUpdate v me
  let t := leftOut.foldl (fun t h => (t.add v h).1) t
  ⟨me, ls, t⟩

end Routing

end PeerRing.Overlay
