/-! # The BLAKE3 hash

BLAKE3 splits its input into chunks of 1024 bytes and each chunk into blocks of 64 bytes. A
chunk's blocks are chained through the compression function, starting from the initial
vector; the chunks' chaining values are then combined pairwise in a binary tree whose left
subtree always holds the largest power of two of chunks that leaves at least one chunk to the
right. The root compression carries the root flag, and its first eight words, little-endian,
are the first 32 bytes of the digest.
-/
namespace PeerRing.Digest.Blake3

/-- The initial vector: the first 32 bits of the fractional parts of the square roots of the
first eight primes. -/
def iv : Array UInt32 :=
  #[0x6A09E667, 0xBB67AE85, 0x3C6EF372, 0xA54FF53A, 0x510E527F, 0x9B05688C, 0x1F83D9AB,
    0x5BE0CD19]

/-- The order in which the message words are used by the next round. -/
def permutation : Array Nat := #[2, 6, 3, 10, 7, 0, 4, 13, 1, 11, 12, 5, 9, 14, 15, 8]

def chunkStart : UInt32 := 1
def chunkEnd : UInt32 := 2
def parent : UInt32 := 4
def root : UInt32 := 8

def blockLen : Nat := 64
def chunkLen : Nat := 1024

def word (a : Array UInt32) (i : Nat) : UInt32 := a.getD i 0

def rotr (x : UInt32) (n : UInt32) : UInt32 := (x >>> n) ||| (x <<< (32 - n))

/-- The quarter-round mixing function on state words `a b c d` with message words `x y`. -/
def mix (s : Array UInt32) (a b c d : Nat) (x y : UInt32) : Array UInt32 :=
  let va := word s a + word s b + x
  let vd := rotr (word s d ^^^ va) 16
  let vc := word s c + vd
  let vb := rotr (word s b ^^^ vc) 12
  let va := va + vb + y
  let vd := rotr (vd ^^^ va) 8
  let vc := vc + vd
  let vb := rotr (vb ^^^ vc) 7
  ((s.setIfInBounds a va).setIfInBounds b vb |>.setIfInBounds c vc).setIfInBounds d vd

/-- One round: the four columns, then the four diagonals. -/
def round (s m : Array UInt32) : Array UInt32 :=
  let s := mix s 0 4 8 12 (word m 0) (word m 1)
  let s := mix s 1 5 9 13 (word m 2) (word m 3)
  let s := mix s 2 6 10 14 (word m 4) (word m 5)
  let s := mix s 3 7 11 15 (word m 6) (word m 7)
  let s := mix s 0 5 10 15 (word m 8) (word m 9)
  let s := mix s 1 6 11 12 (word m 10) (word m 11)
  let s := mix s 2 7 8 13 (word m 12) (word m 13)
  mix s 3 4 9 14 (word m 14) (word m 15)

def permute (m : Array UInt32) : Array UInt32 := permutation.map (word m ·)

/-- The compression function: seven rounds over the chaining value, the initial vector, the
counter, the block length and the flags; the result's first half is the next chaining
value. -/
def compress (cv m : Array UInt32) (counter : Nat) (len : Nat) (flags : UInt32) :
    Array UInt32 :=
  let s0 : Array UInt32 := (List.range 8).toArray.map (word cv ·) ++
    #[word iv 0, word iv 1, word iv 2, word iv 3,
      (counter % Nat.pow 2 32).toUInt32, (counter / Nat.pow 2 32 % Nat.pow 2 32).toUInt32, len.toUInt32, flags]
  let (s, _) := (List.range 7).foldl (fun (acc : Array UInt32 × Array UInt32) i =>
    let s := round acc.1 acc.2
    (s, if i < 6 then permute acc.2 else acc.2)) (s0, m)
  (List.range 8).toArray.map (fun i => word s i ^^^ word s (i + 8)) ++
    (List.range 8).toArray.map (fun i => word s (i + 8) ^^^ word cv i)

/-- Little-endian words of a block, padded with zero bytes to 64. -/
def blockWords (bytes : List UInt8) : Array UInt32 :=
  let padded := bytes ++ List.replicate (blockLen - bytes.length) 0
  (List.range 16).toArray.map fun i =>
    let b (j : Nat) : UInt32 := (padded.getD (4 * i + j) 0).toUInt32
    b 0 ||| (b 1 <<< 8) ||| (b 2 <<< 16) ||| (b 3 <<< 24)

/-- A compression not yet carried out, so that the root flag can still be added. -/
structure Pending where
  cv : Array UInt32
  block : Array UInt32
  counter : Nat
  len : Nat
  flags : UInt32

/-- The chaining value of a node that is not the root. -/
def Pending.chainingValue (p : Pending) : Array UInt32 :=
  (compress p.cv p.block p.counter p.len p.flags).extract 0 8

/-- The first 32 bytes of output of the root node. -/
def Pending.rootBytes (p : Pending) : List UInt8 :=
  let out := compress p.cv p.block p.counter p.len (p.flags ||| root)
  (List.range 8).flatMap fun i =>
    let w := word out i
    [w.toUInt8, (w >>> 8).toUInt8, (w >>> 16).toUInt8, (w >>> 24).toUInt8]

/-- The blocks of a chunk: 64 bytes each, the last one possibly shorter, and one empty block
for an empty chunk. -/
def blocks (fuel : Nat) (bytes : List UInt8) : List (List UInt8) :=
  match fuel with
  | 0 => [bytes]
  | fuel + 1 =>
    if bytes.length ≤ blockLen then [bytes]
    else bytes.take blockLen :: blocks fuel (bytes.drop blockLen)

/-- A chunk: all blocks but the last are compressed in turn; the last is left pending. -/
def chunk (bytes : List UInt8) (counter : Nat) : Pending :=
  let bs := blocks bytes.length bytes
  let firstFlag (i : Nat) : UInt32 := if i = 0 then chunkStart else 0
  let init := bs.dropLast.zipIdx.foldl (fun cv (b, i) =>
    (compress cv (blockWords b) counter blockLen (firstFlag i)).extract 0 8) iv
  let last := bs.getLastD []
  ⟨init, blockWords last, counter, last.length, firstFlag (bs.length - 1) ||| chunkEnd⟩

/-- The largest power of two not above `n`, for `n ≥ 1`. -/
def powerBelow (n : Nat) : Nat := Nat.pow 2 (Nat.log2 n)

/-- The node over `bytes`, whose first chunk has number `counter`. -/
def node (fuel : Nat) (bytes : List UInt8) (counter : Nat) : Pending :=
  match fuel with
  | 0 => chunk bytes counter
  | fuel + 1 =>
    if bytes.length ≤ chunkLen then chunk bytes counter
    else
      let leftChunks := powerBelow ((bytes.length - 1) / chunkLen)
      let left := node fuel (bytes.take (leftChunks * chunkLen)) counter
      let right := node fuel (bytes.drop (leftChunks * chunkLen)) (counter + leftChunks)
      ⟨iv, left.chainingValue ++ right.chainingValue, 0, blockLen, parent⟩

/-- The first 32 bytes of the BLAKE3 digest. -/
def digest (bytes : List UInt8) : List UInt8 :=
  (node bytes.length bytes 0).rootBytes

end PeerRing.Digest.Blake3
