import PeerRing.Host.Record
/-! # The leafset

The leafset keeps the peers numerically nearest to the local key: up to `halfSize` on each
side, clockwise (successors) and counter-clockwise (predecessors), each side nearest first. A
key goes to the clockwise side when the clockwise walk to it is no longer than the other one.
Each member remembers the key it was placed under, which differs from its record's key once
the peer re-keys, until routing places it again.

A host is admitted when its key is neither the local key nor a placed key and it is nearer
than the farthest member of its side or that side has room; the farthest member is then pushed
out if the side overflows. A lookup is definite for keys within the span of the two sides and
answers the member (or the local node) nearest to the key by ring distance, ties going to the
candidate clockwise of the key, then to the smaller key.
-/
namespace PeerRing.Overlay

/-- What routing reads of peer records: their current key and their number of recent
successes. -/
structure PeerView where
  key : Host.Id → Key
  successes : Host.Id → Nat

/-- The view of the records of a registry. -/
def PeerView.ofRegistry (reg : Host.Registry) : PeerView :=
  ⟨reg.key, fun h => (reg.stats h).successes⟩

/-- The answer of one routing structure for a key. -/
inductive Lookup where
  /-- The structure is authoritative for the key. -/
  | found (h : Host.Id)
  /-- A best-effort candidate, if the structure has one. -/
  | closest (h : Option Host.Id)
deriving DecidableEq

/-- The host of a definite answer. -/
def Lookup.found? : Lookup → Option Host.Id
  | .found h => some h
  | .closest _ => none

/-- The two sides of the leafset. -/
inductive Side where
  | cw
  | ccw
deriving DecidableEq

/-- A member and the key it was placed under. -/
structure Member where
  key : Key
  host : Host.Id
deriving DecidableEq

/-- The outcome of offering a host to the leafset. -/
inductive Admission where
  | rejected
  | inserted
  /-- Inserted, and the farthest member of that side was pushed out. -/
  | displaced (h : Host.Id)
deriving DecidableEq

/-- Whether the host was taken in. -/
def Admission.isInserted : Admission → Bool
  | .rejected => false
  | _ => true

/-- The peers nearest to the local key on either side. -/
structure Leafset where
  me : Host.Id
  halfSize : Nat
  cw : List Member
  ccw : List Member
deriving DecidableEq

namespace Leafset

def new (me : Host.Id) (halfSize : Nat) : Leafset := ⟨me, Nat.max halfSize 1, [], []⟩

/-- The bytes a member takes in memory: a key of 20 bytes and a record handle of 8, padded to a
multiple of 8. -/
def memberBytes : Nat := 32

/-- The most members a side can reserve room for: the room may not pass the largest object
size, `2^63 - 8` bytes at an alignment of 8. -/
def reservableMembers : Nat := (Nat.pow 2 63 - 8) / memberBytes

/-- Why a leafset of this half size cannot be made: each side reserves room for `halfSize + 1`
members up front, that count taken modulo 2^64, and more than `reservableMembers` is refused. -/
def reserveError? (halfSize : Nat) : Option String :=
  if (halfSize + 1) % Nat.pow 2 64 > reservableMembers then some "capacity overflow" else none

/-- The side of `k` as seen from `me`, and its distance along that side. -/
def place (me k : Key) : Side × Key :=
  if me.distance k ≤ k.distance me then (.cw, me.distance k) else (.ccw, k.distance me)

/-- The distance of `k` from `me` along a side. -/
def sideDistance (me k : Key) : Side → Key
  | .cw => me.distance k
  | .ccw => k.distance me

def members (ls : Leafset) : List Member := ls.ccw ++ ls.cw

def hosts (ls : Leafset) : List Host.Id := ls.members.map (·.host)

def size (ls : Leafset) : Nat := ls.cw.length + ls.ccw.length

def contains (ls : Leafset) (k : Key) : Bool := ls.members.any (·.key == k)

/-- Whether the record `h` sits here under a key it no longer has. -/
def isStale (v : PeerView) (ls : Leafset) (h : Host.Id) : Bool :=
  ls.members.any fun m => m.host == h && m.key != v.key h

/-- The members of a side. -/
def sideMembers (ls : Leafset) : Side → List Member
  | .cw => ls.cw
  | .ccw => ls.ccw

/-- Replaces the members of a side. -/
def setSide (ls : Leafset) : Side → List Member → Leafset
  | .cw, ms => { ls with cw := ms }
  | .ccw, ms => { ls with ccw := ms }

/-- Offers a host to the leafset. -/
def add (v : PeerView) (ls : Leafset) (h : Host.Id) : Leafset × Admission :=
  let me := v.key ls.me
  let k := v.key h
  if k = me ∨ ls.contains k then (ls, .rejected)
  else
    let (side, dist) := place me k
    let ms := ls.sideMembers side
    let pos := (ms.findIdx? fun m => dist < sideDistance me m.key side).getD ms.length
    if pos ≥ ls.halfSize then (ls, .rejected)
    else
      let ms := ms.insertIdx pos ⟨k, h⟩
      if ms.length > ls.halfSize then
        match ms.getLast? with
        | some out => (ls.setSide side ms.dropLast, .displaced out.host)
        | none => (ls.setSide side ms, .inserted)
      else (ls.setSide side ms, .inserted)

/-- Removes every member placed under `h`'s key or holding the record `h`. -/
def remove (v : PeerView) (ls : Leafset) (h : Host.Id) : Leafset × Bool :=
  let k := v.key h
  let keep (m : Member) : Bool := m.key != k && m.host != h
  let ls' := { ls with cw := ls.cw.filter keep, ccw := ls.ccw.filter keep }
  (ls', ls'.size != ls.size)

/-- The order in which candidates for a key are preferred: ring distance, then lying
clockwise of the key, then the smaller key. -/
def rank (target k : Key) : Nat × Nat × Nat :=
  ((k.ringDistance target).val, if target.distance k ≤ k.distance target then 0 else 1, k.val)

/-- Lexicographic order on ranks. -/
def rankLt (a b : Nat × Nat × Nat) : Bool :=
  a.1 < b.1 || (a.1 == b.1 && (a.2.1 < b.2.1 || (a.2.1 == b.2.1 && a.2.2 < b.2.2)))

/-- The candidate of least rank, the first one on a tie. -/
def firstBest (rk : Key → Nat × Nat × Nat) (first : Key × Host.Id) (rest : List (Key × Host.Id)) :
    Host.Id :=
  (rest.foldl (fun best c => if rankLt (rk c.1) (rk best.1) then c else best) first).2

/-- The member or local node nearest to `k`, by placed keys and the local node's key. -/
def closest (v : PeerView) (ls : Leafset) (k : Key) : Host.Id :=
  match ls.members.map (fun m => (m.key, m.host)) ++ [(v.key ls.me, ls.me)] with
  | c :: cs => firstBest (rank k) c cs
  | [] => ls.me

/-- Resolves a key: definite for a placed key or one within the span of the two sides. -/
def routeLookup (v : PeerView) (ls : Leafset) (k : Key) : Lookup :=
  if ls.size = 0 then .closest (some ls.me)
  else
    let me := v.key ls.me
    let left := (ls.ccw.getLast?.map (·.key)).getD me
    let right := (ls.cw.getLast?.map (·.key)).getD me
    match ls.members.find? (·.key == k) with
    | some m => .found m.host
    | none =>
      let best := ls.closest v k
      if k.between left right then .found best else .closest (some best)

/-- Rebuilds the leafset around a new local host by offering the former members again, counter
clockwise side first; gives the former members that no longer fit. -/
def keyUpdate (v : PeerView) (ls : Leafset) (me : Host.Id) : Leafset × List Host.Id :=
  let former := ls.hosts
  former.foldl (fun (acc : Leafset × List Host.Id) h =>
    let (ls, out) := acc
    match ls.add v h with
    | (ls, .inserted) => (ls, out)
    | (ls, .displaced d) => (ls, out ++ [d])
    | (ls, .rejected) => (ls, out ++ [h])) ({ ls with me, cw := [], ccw := [] }, [])

end Leafset

end PeerRing.Overlay
