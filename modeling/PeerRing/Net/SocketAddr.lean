/-! # Socket addresses

An IPv4 socket address is four decimal octets and a port, `1.2.3.4:80`; an IPv6 one is eight
16-bit groups in brackets, an optional numeric scope and a port, `[fe80::1%2]:80`.

Reading is strict: octets have at most three digits, no leading zero and no value above 255;
groups have at most four hexadecimal digits of either case; `::` stands for one or more zero
groups; an IPv6 address may end in an embedded IPv4 address; a port may have leading zeros but
no sign; nothing may follow. Writing uses lowercase hexadecimal, shortens the longest run of
two or more zero groups (the first such run on a tie) to `::`, writes an IPv4-mapped address
as `::ffff:` and a dotted quad, and shows a scope only when it is not zero.
-/
namespace PeerRing.Net

/-- Eight 16-bit groups, most significant first. -/
structure Ipv6 where
  segments : List UInt16
  length_eq : segments.length = 8
deriving DecidableEq

/-- An IPv6 address from a list of groups, cut or padded with zeros to eight. -/
def Ipv6.ofList (l : List UInt16) : Ipv6 :=
  ⟨(l ++ List.replicate 8 0).take 8, by simp⟩

/-- A socket address: an IP address with a port, and for IPv6 a scope. -/
inductive SocketAddr where
  | v4 (octets : UInt8 × UInt8 × UInt8 × UInt8) (port : UInt16)
  | v6 (ip : Ipv6) (port : UInt16) (scope : UInt32)
deriving DecidableEq

instance : Inhabited SocketAddr := ⟨.v4 (127, 0, 0, 1) 1⟩

namespace SocketAddr

/-- The port of a socket address. -/
def port : SocketAddr → UInt16
  | .v4 _ p => p
  | .v6 _ p _ => p

/-- The order of socket addresses: IPv4 before IPv6, then by address, port and scope. -/
def cmp : SocketAddr → SocketAddr → Ordering
  | .v4 (a, b, c, d) p, .v4 (a', b', c', d') p' =>
    compare [a.toNat, b.toNat, c.toNat, d.toNat, p.toNat] [a'.toNat, b'.toNat, c'.toNat, d'.toNat, p'.toNat]
  | .v4 .., .v6 .. => .lt
  | .v6 .., .v4 .. => .gt
  | .v6 ip p s, .v6 ip' p' s' =>
    compare (ip.segments.map (·.toNat) ++ [p.toNat, s.toNat])
      (ip'.segments.map (·.toNat) ++ [p'.toNat, s'.toNat])

/-- The value of a digit of the given radix. -/
def digitOf (radix : Nat) (c : Char) : Option Nat :=
  let n := c.toNat
  let v := if 48 ≤ n ∧ n ≤ 57 then n - 48
    else if 97 ≤ n ∧ n ≤ 122 then n - 87
    else if 65 ≤ n ∧ n ≤ 90 then n - 55
    else radix
  if v < radix then some v else none

/-- Reads a run of digits as a number no larger than `limit`, with at most `maxDigits` digits
when given, and with a leading zero only if `zeroPrefix` or the number is a single `0`. -/
def readNumber (radix : Nat) (maxDigits : Option Nat) (zeroPrefix : Bool) (limit : Nat)
    (cs : List Char) : Option (Nat × List Char) :=
  let ds := cs.takeWhile fun c => (digitOf radix c).isSome
  let value := ds.foldl (fun acc c => acc * radix + (digitOf radix c).getD 0) 0
  if ds.isEmpty then none
  else if maxDigits.any (ds.length > ·) then none
  else if value > limit then none
  else if !zeroPrefix && ds.head? == some '0' && ds.length > 1 then none
  else some (value, cs.drop ds.length)

/-- Reads one expected character. -/
def expect (c : Char) : List Char → Option (List Char)
  | d :: r => if d = c then some r else none
  | [] => none

/-- Reads a dotted quad. -/
def readIpv4 (cs : List Char) : Option ((UInt8 × UInt8 × UInt8 × UInt8) × List Char) := do
  let octet := readNumber 10 (some 3) false 255
  let (a, r) ← octet cs
  let (b, r) ← octet (← expect '.' r)
  let (c, r) ← octet (← expect '.' r)
  let (d, r) ← octet (← expect '.' r)
  pure ((a.toUInt8, b.toUInt8, c.toUInt8, d.toUInt8), r)

/-- Reads up to `slots` colon separated groups, the first without a colon before it when
`first`. With at least two slots left an embedded IPv4 address may end the run, filling two
groups. Gives the groups, whether an IPv4 address ended them, and the rest; reading stops
before a separator that is not followed by a group. -/
def readGroups : Nat → Bool → List Char → List UInt16 × Bool × List Char
  | 0, _, cs => ([], false, cs)
  | n + 1, first, cs =>
    let afterSep := if first then some cs else expect ':' cs
    let quad := if n ≥ 1 then afterSep.bind readIpv4 else none
    match quad with
    | some ((a, b, c, d), r) =>
      ([a.toUInt16 * 256 + b.toUInt16, c.toUInt16 * 256 + d.toUInt16], true, r)
    | none =>
      match afterSep.bind (readNumber 16 (some 4) true 0xFFFF) with
      | some (g, r) =>
        let (gs, embedded, rest) := readGroups n false r
        (g.toUInt16 :: gs, embedded, rest)
      | none => ([], false, cs)

/-- Reads an IPv6 address: eight groups, or groups around one `::`. -/
def readIpv6 (cs : List Char) : Option (Ipv6 × List Char) :=
  let (head, headV4, r) := readGroups 8 true cs
  if head.length = 8 then some (Ipv6.ofList head, r)
  else if headV4 then none
  else
    match r with
    | ':' :: ':' :: r =>
      let (tail, _, r) := readGroups (7 - head.length) true r
      some (Ipv6.ofList (head ++ List.replicate (8 - head.length - tail.length) 0 ++ tail), r)
    | _ => none

/-- Reads `:` and a port. -/
def readPort (cs : List Char) : Option (UInt16 × List Char) := do
  let (p, r) ← readNumber 10 none true 65535 (← expect ':' cs)
  pure (p.toUInt16, r)

/-- Reads an IPv4 socket address. -/
def readV4 (cs : List Char) : Option (SocketAddr × List Char) := do
  let (ip, r) ← readIpv4 cs
  let (p, r) ← readPort r
  pure (.v4 ip p, r)

/-- Reads a bracketed IPv6 socket address with an optional numeric scope. -/
def readV6 (cs : List Char) : Option (SocketAddr × List Char) := do
  let (ip, r) ← readIpv6 (← expect '[' cs)
  let (scope, r) := match r with
    | '%' :: r' => match readNumber 10 none true (Nat.pow 2 32 - 1) r' with
      | some (s, r'') => (s, r'')
      | none => (0, r)
    | _ => (0, r)
  let (p, r) ← readPort (← expect ']' r)
  pure (.v6 ip p scope.toUInt32, r)

/-- Reads a whole text as a socket address. -/
def parse? (s : String) : Option SocketAddr :=
  match readV4 s.toList with
  | some (a, []) => some a
  | some _ => none
  | none =>
    match readV6 s.toList with
    | some (a, []) => some a
    | _ => none

def groupText (g : UInt16) : String := String.ofList (Nat.toDigits 16 g.toNat)

def groupsText (gs : List UInt16) : String := ":".intercalate (gs.map groupText)

/-- The longest run of zero groups as (start, length); the first one on a tie. -/
def longestZeroRun (gs : List UInt16) : Nat × Nat :=
  let step (acc : (Nat × Nat) × (Nat × Nat)) (ig : UInt16 × Nat) :=
    let (best, cur) := acc
    let (g, i) := ig
    if g = 0 then
      let cur := if cur.2 = 0 then (i, 1) else (cur.1, cur.2 + 1)
      (if cur.2 > best.2 then cur else best, cur)
    else (best, (0, 0))
  (gs.zipIdx.foldl step ((0, 0), (0, 0))).1

/-- Dotted quad text. -/
def quadText (a b c d : Nat) : String :=
  toString a ++ "." ++ toString b ++ "." ++ toString c ++ "." ++ toString d

/-- The text of an IPv6 address. -/
def ipv6Text (ip : Ipv6) : String :=
  match ip.segments with
  | [0, 0, 0, 0, 0, 0xFFFF, x, y] =>
    "::ffff:" ++ quadText (x.toNat / 256) (x.toNat % 256) (y.toNat / 256) (y.toNat % 256)
  | gs =>
    let (start, len) := longestZeroRun gs
    if len > 1 then groupsText (gs.take start) ++ "::" ++ groupsText (gs.drop (start + len))
    else groupsText gs

/-- The text of a socket address. -/
def toText : SocketAddr → String
  | .v4 (a, b, c, d) p => quadText a.toNat b.toNat c.toNat d.toNat ++ ":" ++ toString p.toNat
  | .v6 ip p s =>
    "[" ++ ipv6Text ip ++ (if s = 0 then "" else "%" ++ toString s.toNat) ++ "]:" ++
      toString p.toNat

instance : ToString SocketAddr := ⟨toText⟩

end SocketAddr

end PeerRing.Net
