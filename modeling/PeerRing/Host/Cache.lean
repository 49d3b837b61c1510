import PeerRing.Host.Record
/-! # The host cache

A node finds the record of a peer by its socket address in a cache of bounded size that keeps
its entries from most to least recently used. A record that something other than the cache
still refers to is pinned: it is never evicted, so the cache may hold more entries than its
capacity until such records are released.

Getting an address that is cached makes it the most recent entry and, when a nonzero key that
differs is given, re-keys its record. Getting an address that is not cached first evicts, when
the cache is full, unpinned entries from the least recent end until one place is free or no
candidate is left, and then creates a record as the most recent entry. Decoding reads the text
of a host address and gets it. Releasing a record evicts, when the cache is over capacity, down
to capacity.
-/
namespace PeerRing.Host

open Net

/-- A bounded cache from socket addresses to peer records: its entries go from most to least
recently used, with distinct addresses, and `capacity`, at least one, bounds those not pinned. -/
structure Cache where
  capacity : Nat
  entries : List (SocketAddr × Id)

namespace Cache

def new (max : Nat) : Cache := ⟨Nat.max max 1, []⟩

def size (c : Cache) : Nat := c.entries.length

/-- The record cached for an address, without making it more recent. -/
def lookup (c : Cache) (a : SocketAddr) : Option Id :=
  (c.entries.find? (·.1 == a)).map (·.2)

def addrs (c : Cache) : List SocketAddr := c.entries.map (·.1)

/-- The least recently used entry whose record is not pinned. -/
def victim (c : Cache) (pinned : Id → Bool) : Option SocketAddr :=
  (c.entries.reverse.find? fun e => !pinned e.2).map (·.1)

/-- Evicts least recently used unpinned entries until at most `target` remain or none is
left to evict. -/
def evictTo (pinned : Id → Bool) (target : Nat) (c : Cache) : Cache :=
  go c.entries.length c
where
  go : Nat → Cache → Cache
    | 0, c => c
    | fuel + 1, c =>
      if c.size ≤ target then c
      else
        match c.victim pinned with
        | some a => go fuel { c with entries := c.entries.filter (·.1 != a) }
        | none => c

/-- The record for a host address, creating it if the address is not cached. -/
def getHost (c : Cache) (reg : Registry) (a : NodeAddr) (pinned : Id → Bool) :
    Cache × Registry × Id :=
  match c.lookup a.addr with
  | some h =>
    let c := { c with entries := (a.addr, h) :: c.entries.filter (·.1 != a.addr) }
    let reg := if !a.key.isZero && reg.key h != a.key then reg.setKey h a.key else reg
    (c, reg, h)
  | none =>
    let c := if c.size ≥ c.capacity then evictTo pinned (c.capacity - 1) c else c
    let (reg, h) := reg.create a
    ({ c with entries := (a.addr, h) :: c.entries }, reg, h)

/-- Reads the text of a host address and gets its record, as `getHost` does. -/
def decodeHost (c : Cache) (reg : Registry) (s : String) (pinned : Id → Bool) :
    Except HostError (Cache × Registry × Id) :=
  match NodeAddr.parse s with
  | .ok a => .ok (c.getHost reg a pinned)
  | .error e => .error e

/-- After a record is released: evicts down to capacity if the cache is over it. -/
def release (c : Cache) (pinned : Id → Bool) : Cache :=
  if c.size > c.capacity then evictTo pinned c.capacity c else c

end Cache

end PeerRing.Host
