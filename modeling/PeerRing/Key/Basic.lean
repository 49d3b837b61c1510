/-! # Ring keys

A key is a point on the identifier ring: a 160-bit word, stored as 20 bytes, most significant
first, and read big-endian as a number below 2^160. Sums and differences are worked out byte by
byte from the least significant, carrying and borrowing into the next byte and dropping what
passes the most significant one, so they wrap around the ring. Keys are ordered by their bytes,
compared from the most significant. The distance from `a` to `b` is the length of the clockwise
walk from `a` to `b`; the ring distance is the shorter of the two walks. A key is also a string
of 40 hexadecimal digits, most significant first, two to a byte, and two keys share a prefix of
digits of some length, found by comparing their bytes.
-/
namespace PeerRing

/-- A point on the identifier ring, as a 160-bit word. -/
structure Key where
  bits : BitVec 160
deriving DecidableEq, Repr

namespace Key

def digits : Nat := 40

def size : Nat := Nat.pow 2 160

def val (k : Key) : Nat := k.bits.toNat

def ofNat (n : Nat) : Key := ⟨BitVec.ofNat 160 n⟩

/-- The zero key, which also stands for "key not known yet". -/
def zero : Key := ofNat 0

/-- The key half way round the ring from zero. -/
def half : Key := ofNat (Nat.pow 2 159)

instance : Inhabited Key := ⟨zero⟩

/-- The lowest `n` bytes of a 64-bit word, most significant first, put in front of `rest`. -/
def wordBytes (w : UInt64) : Nat → List UInt8 → List UInt8
  | 0, rest => rest
  | n + 1, rest => wordBytes (w >>> 8) n (w.toUInt8 :: rest)

/-- The key's 20 bytes, most significant first: its top 32 bits and then its two lower 64-bit
words, each written big-endian. Kept irreducible, so that checking two sums or comparisons of
keys for equality never runs the byte loops on unknown keys. -/
@[irreducible] def bytes (k : Key) : List UInt8 :=
  wordBytes (k.val >>> 128).toUInt64 4 <|
    wordBytes (k.val >>> 64).toUInt64 8 <| wordBytes k.val.toUInt64 8 []

/-- The 64-bit word that big-endian bytes write (the last eight count). -/
def wordOf (bytes : List UInt8) : UInt64 :=
  bytes.foldl (fun w b => w * 256 + b.toUInt64) 0

/-- The key whose 20 big-endian bytes are the given ones: the first four make its top 32 bits,
the next eight and the last eight its two lower 64-bit words, shifted into place. Irreducible
like `bytes`. -/
@[irreducible] def ofBytes (bytes : List UInt8) : Key :=
  ofNat ((wordOf (bytes.take 4)).toNat <<< 128 + (wordOf ((bytes.drop 4).take 8)).toNat <<< 64 +
    (wordOf (bytes.drop 12)).toNat)

/-- A random key: 20 bytes drawn at random, read as `ofBytes` reads them. -/
def random (draw : Vector UInt8 20) : Key := ofBytes draw.toList

/-- One turn of the carry loop of addition, over the bytes of both keys at one position and
what the turns for the positions after it left: the carry out of them, in 16 bits, and the
bytes of the sum there. The byte of the sum here goes in front, and the bits above it carry
into the position before. -/
def addStep (ab : UInt8 × UInt8) (acc : UInt16 × List UInt8) : UInt16 × List UInt8 :=
  let sum := ab.1.toUInt16 + ab.2.toUInt16 + acc.1
  (sum >>> 8, sum.toUInt8 :: acc.2)

/-- One turn of the borrow loop of subtraction, in signed 16-bit arithmetic: a difference
below zero borrows 256 from the position before. -/
def subStep (ab : UInt8 × UInt8) (acc : Int16 × List UInt8) : Int16 × List UInt8 :=
  let diff := ab.1.toUInt16.toInt16 - ab.2.toUInt16.toInt16 - acc.1
  if diff < 0 then (1, (diff + 256).toUInt16.toUInt8 :: acc.2)
  else (0, diff.toUInt16.toUInt8 :: acc.2)

/-- The sum of two keys: the carry loop, from the least significant byte up, and the carry out
of the most significant byte is dropped. -/
instance : Add Key := ⟨fun a b => ofBytes ((a.bytes.zip b.bytes).foldr addStep (0, [])).2⟩

/-- The difference of two keys: the borrow loop, from the least significant byte up, and the
borrow out of the most significant byte is dropped. -/
instance : Sub Key := ⟨fun a b => ofBytes ((a.bytes.zip b.bytes).foldr subStep (0, [])).2⟩

instance : Ord Key := ⟨fun a b => compare a.bytes b.bytes⟩
instance : LT Key := ⟨fun a b => compare a b = .lt⟩
instance : LE Key := ⟨fun a b => compare a b ≠ .gt⟩
instance (a b : Key) : Decidable (a < b) := inferInstanceAs (Decidable (compare a b = .lt))
instance (a b : Key) : Decidable (a ≤ b) := inferInstanceAs (Decidable (compare a b ≠ .gt))

def isZero (k : Key) : Bool := k.val == 0

/-- Clockwise distance from `a` to `b`: how far one walks from `a` until reaching `b`. -/
def distance (a b : Key) : Key := b - a

def intervalSize (a b : Key) : Key := distance a b

/-- The shorter of the two walks between `a` and `b`. -/
def ringDistance (a b : Key) : Key :=
  if distance b a < distance a b then distance b a else distance a b

/-- Whether `t` lies on the clockwise arc from `l` to `r`, both ends included. When `l = r`
the arc is the whole ring. -/
def between (t l r : Key) : Bool :=
  if t = l ∨ t = r then true
  else if l < r then decide (l < t ∧ t < r)
  else !decide (r < t ∧ t < l)

def midpoint (k : Key) : Key := k + half

/-- Byte `j` of the key, counted from the most significant; zero past the last of the 20. -/
def byte (k : Key) (j : Nat) : UInt8 :=
  if j < 20 then (k.val >>> (8 * (19 - j))).toUInt8 else 0

/-- The hexadecimal digit at position `i`, counted from the most significant: byte `i / 2` holds
two digits, the one at the even position in its high half and the one at the odd position in its
low half. Zero past the last digit. -/
def digit (k : Key) (i : Nat) : Nat :=
  if i % 2 = 0 then (k.byte (i / 2) >>> 4).toNat else (k.byte (i / 2) &&& 0x0f).toNat

/-- The complaint about reading digit `i` of a key when `i ≥ 40`: it lies in byte `i / 2` of
a key of 20 bytes. -/
def digitOutOfRange (i : Nat) : String :=
  "index out of bounds: the len is 20 but the index is " ++ toString (i / 2)

/-- Number of leading hexadecimal digits on which `a` and `b` agree, at most 40. The bytes are
compared from the most significant: where they first differ, at position `j`, the keys share the
`2 * j` digits of the bytes before, and one more when the high halves of the two bytes agree. -/
def keyIndex (a b : Key) : Nat :=
  match (List.range 20).find? fun j => a.byte j != b.byte j with
  | some j => if a.byte j >>> 4 = b.byte j >>> 4 then 2 * j + 1 else 2 * j
  | none => digits

/-- The comparison of two keys: -1, 0 or 1. -/
def cmpSign (a b : Key) : Int :=
  match compare a b with
  | .lt => -1
  | .eq => 0
  | .gt => 1

theorem val_lt (k : Key) : k.val < size := k.bits.isLt

theorem ext_val {a b : Key} (h : a.val = b.val) : a = b := by
  cases a; cases b
  simp only [val] at h
  simp [BitVec.eq_of_toNat_eq h]

end Key

end PeerRing
