import PeerRing.Overlay.Leafset
/-! # The prefix routing table

One row per length of the prefix shared with the local key and one column per digit value:
the entry at row `i` and column `j` shares exactly `i` leading digits with the local key and
has digit `j` at position `i`. That is its home slot; the local key has none. Forwarding
through the table matches at least one more digit of the destination per hop.

A host goes into its home slot when the slot is empty or holds a peer with fewer recent
successes, but not over a peer with the same key. A lookup is definite when the row of the
shared prefix has an entry sharing more digits with the key; otherwise it answers the entry
nearest to the key by ring distance, then by the smaller key, the first one in row order on a
tie.
-/
namespace PeerRing.Overlay

/-- Number of rows: one per digit of a key. -/
def rowCount : Nat := 40

/-- Number of columns: one per digit value. -/
def columnCount : Nat := 16

/-- The prefix routing table of a local host; its slots go row by row, slot `(i, j)` at
`16 * i + j`. -/
structure Table where
  me : Host.Id
  slots : Array (Option Host.Id)

namespace Table

def new (me : Host.Id) : Table := ⟨me, Array.replicate (rowCount * columnCount) none⟩

/-- The entry in row `i`, column `j`. -/
def get (t : Table) (i j : Nat) : Option Host.Id :=
  if i < rowCount ∧ j < columnCount then (t.slots.getD (columnCount * i + j) none) else none

/-- Sets the entry in row `i`, column `j`. -/
def set (t : Table) (i j : Nat) (e : Option Host.Id) : Table :=
  if i < rowCount ∧ j < columnCount then { t with slots := t.slots.setIfInBounds (columnCount * i + j) e }
  else t

/-- The home slot of a key: the length of its prefix shared with the local key, and its digit
there; none for the local key itself. -/
def slot (v : PeerView) (t : Table) (k : Key) : Option (Nat × Nat) :=
  let i := (v.key t.me).keyIndex k
  if i < rowCount then some (i, k.digit i) else none

/-- The occupied entries of row `i`, in column order; none for a row past the last. -/
def row (t : Table) (i : Nat) : List Host.Id :=
  (List.range columnCount).filterMap (t.get i ·)

/-- All entries with their slots, row by row. -/
def entries (t : Table) : List ((Nat × Nat) × Host.Id) :=
  (List.range rowCount).flatMap fun i =>
    (List.range columnCount).filterMap fun j => (t.get i j).map fun h => ((i, j), h)

def hosts (t : Table) : List Host.Id := t.entries.map (·.2)

def size (t : Table) : Nat := t.hosts.length

/-- Installs `h` in its home slot if the slot is empty or holds a peer of another key with
fewer recent successes. -/
def add (v : PeerView) (t : Table) (h : Host.Id) : Table × Bool :=
  let k := v.key h
  match t.slot v k with
  | none => (t, false)
  | some (i, j) =>
    match t.get i j with
    | none => (t.set i j (some h), true)
    | some cur =>
      if v.key cur = k then (t, false)
      else if v.successes cur < v.successes h then (t.set i j (some h), true)
      else (t, false)

/-- Clears every slot holding the record `h` or a record with `h`'s key. -/
def remove (v : PeerView) (t : Table) (h : Host.Id) : Table × Bool :=
  let k := v.key h
  let hit := t.entries.filter fun e => e.2 == h || v.key e.2 == k
  (hit.foldl (fun t e => t.set e.1.1 e.1.2 none) t, !hit.isEmpty)

/-- Whether the home slot of `k` holds a record whose key is `k`. -/
def contains (v : PeerView) (t : Table) (k : Key) : Bool :=
  match t.slot v k with
  | some (i, j) => (t.get i j).any (v.key · == k)
  | none => false

/-- Whether the record `h` sits in a slot that is not the home slot of its key. -/
def isStale (v : PeerView) (t : Table) (h : Host.Id) : Bool :=
  let home := t.slot v (v.key h)
  t.entries.any fun e => e.2 == h && home != some e.1

/-- One prefix routing step for `k`. -/
def routeLookup (v : PeerView) (t : Table) (k : Key) : Lookup :=
  let i := (v.key t.me).keyIndex k
  if i ≥ rowCount then .found t.me
  else
    match (t.row i).find? fun h => (v.key h).keyIndex k > i with
    | some h => .found h
    | none =>
      let rk (c : Key) : Nat × Nat × Nat := ((c.ringDistance k).val, c.val, 0)
      match t.hosts.map (fun h => (v.key h, h)) with
      | c :: cs => .closest (some (Leafset.firstBest rk c cs))
      | [] => .closest none

/-- Rebuilds the table around a new local host by offering the former entries again, row by
row. -/
def keyUpdate (v : PeerView) (t : Table) (me : Host.Id) : Table :=
  t.hosts.foldl (fun t h => (t.add v h).1) (new me)

end Table

end PeerRing.Overlay
