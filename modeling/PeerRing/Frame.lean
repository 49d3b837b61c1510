import PeerRing.Message.Codec
/-! # Datagram frames

Every datagram starts with a 16-byte header: the magic number `0x524d5348` ("RMSH"), the
version 1, a flags byte (1 for data, 2 for acknowledgement), two reserved bytes, and a 64-bit
sequence number, all big-endian. A data frame carries a message body after the header; an
acknowledgement echoes the sequence number of the data frame it answers and ignores anything
after the header. No datagram is longer than 65536 bytes.

Reading checks, in order: the length of the header, the magic number, the version, the flags,
and for data the message body.
-/
namespace PeerRing

/-- A decoded datagram. -/
inductive Frame where
  | data (seq : UInt64) (message : Message)
  | ack (seq : UInt64)

namespace Frame

def magic : Nat := 0x524d5348

def version : Nat := 1

def flagData : Nat := 1

def flagAck : Nat := 2

def headerLen : Nat := 16

def maxDatagram : Nat := 65536

/-- Why a datagram is no frame. -/
inductive Error where
  | tooShort (len : Nat)
  | tooLarge (len : Nat)
  | badMagic (value : Nat)
  | unsupportedVersion (v : Nat)
  | invalidFlags (flags : Nat)
  | message (e : Message.Error)

/-- `0x` and the number in lowercase hexadecimal, zero-padded to `width` digits. -/
def hexPadded (width n : Nat) : String :=
  let ds := Nat.toDigits 16 n
  "0x" ++ String.ofList (List.replicate (width - ds.length) '0' ++ ds)

/-- The text of a frame error, where one is shown. -/
def Error.message? : Error → Option String
  | .tooShort n => some ("datagram too short: " ++ toString n ++ " bytes")
  | .tooLarge n => some ("datagram too large: " ++ toString n ++ " bytes")
  | .badMagic m => some ("bad frame magic " ++ hexPadded 8 m)
  | .unsupportedVersion v => some ("unsupported frame version " ++ toString v)
  | .invalidFlags f => some ("invalid frame flags " ++ hexPadded 2 f)
  | .message e => e.message?

/-- The name of the kind of a frame error. -/
def Error.kindName : Error → String
  | .tooShort _ => "TooShort"
  | .tooLarge _ => "TooLarge"
  | .badMagic _ => "BadMagic"
  | .unsupportedVersion _ => "UnsupportedVersion"
  | .invalidFlags _ => "InvalidFlags"
  | .message _ => "Message"

/-- The big-endian bytes of a number, `width` of them. -/
def bigEndian (width n : Nat) : List UInt8 :=
  (List.range width).reverse.map fun i => (n / Nat.pow 256 i % 256).toUInt8

/-- The number of big-endian bytes. -/
def ofBigEndian (bytes : List UInt8) : Nat :=
  bytes.foldl (fun acc b => acc * 256 + b.toNat) 0

/-- The header of a frame with the given flags and sequence number. -/
def header (flags : Nat) (seq : UInt64) : List UInt8 :=
  bigEndian 4 magic ++ [version.toUInt8, flags.toUInt8, 0, 0] ++ bigEndian 8 seq.toNat

def encodeAck (seq : UInt64) : List UInt8 := header flagAck seq

/-- A data frame, refused when it would be longer than the largest datagram. -/
def encodeData (seq : UInt64) (m : Message) : Except Error (List UInt8) :=
  let bytes := header flagData seq ++ m.encode
  if bytes.length > maxDatagram then .error (.tooLarge bytes.length) else .ok bytes

/-- Reads a datagram. -/
def decode (bytes : List UInt8) : Except Error Frame :=
  if bytes.length < headerLen then .error (.tooShort bytes.length)
  else
    let m := ofBigEndian (bytes.take 4)
    let v := (bytes.getD 4 0).toNat
    let flags := (bytes.getD 5 0).toNat
    let seq := (ofBigEndian ((bytes.drop 8).take 8)).toUInt64
    if m ≠ magic then .error (.badMagic m)
    else if v ≠ version then .error (.unsupportedVersion v)
    else if flags = flagAck then .ok (.ack seq)
    else if flags = flagData then
      match Message.decode (bytes.drop headerLen) with
      | .ok msg => .ok (.data seq msg)
      | .error e => .error (.message e)
    else .error (.invalidFlags flags)

end Frame

end PeerRing
