import PeerRing.Network.Handlers
/-! # Stabilization

Every check pings each leafset and routing table member once. A failed ping stamps the peer's
failure time; once its success average is below the bad-link mark it is removed from routing
state, so a single lost ping never evicts a healthy peer. Every few checks the node also sends
its leafset and itself to its leafset members (PIGGY), so neighbours converge on the same
view; a member that cannot be reached and whose link is bad is removed as well.
-/
namespace PeerRing.Network

/-- Sends the node's leafset and itself to every leafset member. -/
def piggy (r : NodeRef) : NetM Unit := do
  let some n ← getNode r | return
  let leafset := n.leafsetHosts
  let addrs := leafset.map n.reg.nodeAddr ++ [n.meAddr]
  for h in leafset.filter (· != n.me) do
    let some n ← getNode r | return
    let ok ← send r h (Message.piggy n.key (n.reg.key h) addrs)
    let some n ← getNode r | return
    if !ok && n.isBadLink h then discard <| removeFromRouting r h

/-- One check of a node, given the checks since its last leafset broadcast; gives the new
count. -/
def checkRun (r : NodeRef) (runs : Nat) : NetM Nat := do
  let some n ← getNode r | return runs
  for h in n.checkPeers do
    if ← ping r h then continue
    let now := (← get).now
    modifyNode r (·.markFailed h now)
    let some n ← getNode r | return runs
    if n.isBadLink h then discard <| removeFromRouting r h
  if runs + 1 ≥ n.config.piggyPeriod then
    piggy r
    return 0
  else return runs + 1

end PeerRing.Network
